import T38Modem.Delivery

/-- What is left of the items of a channel that loses some of them, with a mark for what was lost. -/
inductive Thins {α : Type*} : List α → List (Option α) → Prop
  | nil : Thins [] []
  | keep (x : α) {xs : List α} {ys : List (Option α)} (h : Thins xs ys) : Thins (x :: xs) (some x :: ys)
  | gap (lost : List α) {xs : List α} {ys : List (Option α)} (h : Thins xs ys) : Thins (lost ++ xs) (none :: ys)

/-- The items with some of them said again right behind themselves. -/
inductive Stutters {α : Type*} (P : α → Prop) : List α → List α → Prop
  | nil : Stutters P [] []
  | next (x : α) {xs ys : List α} (h : Stutters P xs ys) : Stutters P (xs ++ [x]) (ys ++ [x])
  | again {x : α} {xs ys : List α} (hp : P x) (hl : ys.getLast? = some x) (h : Stutters P xs ys) : Stutters P xs (ys ++ [x])

namespace Thins

variable {α : Type*} {xs : List α} {ys zs : List (Option α)}

/-- What has come first is what is left of the first items. -/
theorem of_append (h : Thins xs (ys ++ zs)) : ∃ front, front <+: xs ∧ Thins front ys := by
  induction ys generalizing xs with
  | nil => exact ⟨[], List.nil_prefix, .nil⟩
  | cons y ys ih =>
    generalize hw : y :: ys ++ zs = w at h
    cases h with
    | nil => cases hw
    | keep x h =>
      obtain ⟨rfl, rfl⟩ := List.cons.inj hw
      obtain ⟨front, hp, ht⟩ := ih h
      exact ⟨x :: front, (List.prefix_cons_inj x).mpr hp, .keep x ht⟩
    | gap lost h =>
      obtain ⟨rfl, rfl⟩ := List.cons.inj hw
      obtain ⟨front, hp, ht⟩ := ih h
      exact ⟨lost ++ front, (List.prefix_append_right_inj lost).mpr hp, .gap lost ht⟩

theorem append {xs' : List α} (h : Thins xs ys) (h' : Thins xs' zs) : Thins (xs ++ xs') (ys ++ zs) := by
  induction h with
  | nil => exact h'
  | keep x _ ih => exact .keep x ih
  | gap lost _ ih =>
    rw [List.append_assoc]
    exact .gap lost ih

end Thins

theorem Stutters.refl {α : Type*} {P : α → Prop} (xs : List α) : Stutters P xs xs := by
  induction xs using List.reverseRecOn with
  | nil => exact .nil
  | append_singleton xs x ih => exact .next x ih

namespace Delivery

variable {β : Type*} {a b : Int} {es : List (Report β)} {sent : List β}

/-- What a user is told: an item, or that some are lost. -/
def Report.arrival : Report β → Option β
  | .item _ x => some x
  | .lost _ => none

/-- The reports are of the items that have their numbers. -/
def Numbered (sent : List β) (es : List (Report β)) : Prop := ∀ n x, .item n x ∈ es → 0 ≤ n ∧ sent[n.toNat]? = some x

theorem Numbered.tail {e : Report β} (h : Numbered sent (e :: es)) : Numbered sent es :=
  fun n x hm => h n x (List.mem_cons_of_mem e hm)

theorem Numbered.head {n : Int} {x : β} (h : Numbered sent (.item n x :: es)) : 0 ≤ n ∧ sent[n.toNat]? = some x :=
  h n x List.mem_cons_self

/-- The reports end with an item, which is one of those sent. -/
theorem Tiles.end_le (h : Tiles a es b) (hp : Prompt es) (hn : Numbered sent es) (ha : a ≤ sent.length) :
    b ≤ sent.length := by
  induction es generalizing a with
  | nil =>
    have hab : a = b := h
    omega
  | cons e es ih =>
    cases e with
    | item n x =>
      obtain ⟨rfl, ht⟩ := h
      obtain ⟨h0, hx⟩ := hn.head
      obtain ⟨hlt, -⟩ := List.getElem?_eq_some_iff.mp hx
      exact ih ht hp hn.tail (by omega)
    | lost k =>
      obtain ⟨hk, ht⟩ := h
      obtain ⟨⟨n, x, rest, rfl⟩, hp⟩ := hp
      obtain ⟨h0, hx⟩ := hn.tail.head
      obtain ⟨hlt, -⟩ := List.getElem?_eq_some_iff.mp hx
      have hna : n = a + k := ht.1
      exact ih ht hp hn.tail (by omega)

/-- Items that come in order, with every loss told, are what is left of those sent. -/
theorem Tiles.thins (h : Tiles a es b) (hn : Numbered sent es) (ha : 0 ≤ a) (hb : b ≤ sent.length) :
    Thins ((sent.take b.toNat).drop a.toNat) (es.map Report.arrival) := by
  induction es generalizing a with
  | nil =>
    have hab : a = b := h
    subst hab
    rw [List.drop_eq_nil_of_le (List.length_take_le _ _)]
    exact .nil
  | cons e es ih =>
    cases e with
    | item n x =>
      obtain ⟨rfl, ht⟩ := h
      obtain ⟨h0, hx⟩ := hn.head
      have hle := ht.le
      have hget : (sent.take b.toNat)[n.toNat]? = some x := by
        rw [List.getElem?_take_of_lt (by omega), hx]
      obtain ⟨hlt, hval⟩ := List.getElem?_eq_some_iff.mp hget
      have hstep : (n + 1).toNat = n.toNat + 1 := by omega
      have htail := ih ht hn.tail (by omega)
      rw [hstep] at htail
      rw [List.drop_eq_getElem_cons hlt, hval]
      exact .keep x htail
    | lost k =>
      obtain ⟨hk, ht⟩ := h
      have htail := ih ht hn.tail (by omega)
      have hsplit : (sent.take b.toNat).drop a.toNat = ((sent.take b.toNat).drop a.toNat).take k.toNat ++
          (sent.take b.toNat).drop (a + k).toNat := by
        have hsum : (a + k).toNat = a.toNat + k.toNat := by omega
        rw [hsum, ← List.drop_drop, List.take_append_drop]
      rw [hsplit]
      exact .gap _ htail

/-- Where nothing is lost, all items have come. -/
theorem Tiles.arrivals (h : Tiles a es b) (hn : Numbered sent es) (ha : 0 ≤ a) (hb : b ≤ sent.length)
    (hl : ∀ k, .lost k ∉ es) : es.map Report.arrival = ((sent.take b.toNat).drop a.toNat).map some := by
  have ht := h.thins hn ha hb
  generalize (sent.take b.toNat).drop a.toNat = xs at ht
  have hsome : ∀ y ∈ es.map Report.arrival, y ≠ none := by
    intro y hy
    obtain ⟨e, he, rfl⟩ := List.mem_map.mp hy
    cases e with
    | item n x => exact Option.some_ne_none x
    | lost k => exact absurd he (hl k)
  clear h hl
  generalize es.map Report.arrival = ys at ht hsome
  induction ht with
  | nil => rfl
  | keep x _ ih =>
    obtain ⟨-, hys⟩ := List.forall_mem_cons.mp hsome
    rw [List.map_cons, ih hys]
  | gap lost _ => exact absurd rfl (hsome none List.mem_cons_self)

end Delivery
