import Mathlib

namespace Delivery

/-- What a receiver of numbered items tells its user: an item, or how many it has lost. -/
inductive Report (β : Type*) where
  | item (n : Int) (x : β)
  | lost (k : Int)
  deriving DecidableEq, Repr

variable {β : Type*}

/-- The reports account for the numbers from `a` to `b` one after the other. -/
def Tiles : Int → List (Report β) → Int → Prop
  | a, [], b => a = b
  | a, .item n _ :: es, b => n = a ∧ Tiles (a + 1) es b
  | a, .lost k :: es, b => 0 < k ∧ Tiles (a + k) es b

/-- Every loss is told right before the item behind it. -/
def Prompt : List (Report β) → Prop
  | [] => True
  | .item _ _ :: es => Prompt es
  | .lost _ :: es => (∃ n x rest, es = .item n x :: rest) ∧ Prompt es

/-- The numbers of the items. -/
def handled : List (Report β) → List Int
  | [] => []
  | .item n _ :: es => n :: handled es
  | .lost _ :: es => handled es

def lostTotal : List (Report β) → Int
  | [] => 0
  | .item _ _ :: es => lostTotal es
  | .lost k :: es => k + lostTotal es

/-- The numbers from `a` to `b` without an item. -/
noncomputable def skipped (a b : Int) (es : List (Report β)) : Finset Int := Finset.Ico a b \ (handled es).toFinset

variable {a b c k n m : Int} {x y : β} {es es' pre mid post : List (Report β)}

@[simp] theorem handled_append : handled (es ++ es') = handled es ++ handled es' := by
  induction es with
  | nil => rfl
  | cons e es ih => cases e <;> simp [handled, ih]

@[simp] theorem lostTotal_append : lostTotal (es ++ es') = lostTotal es + lostTotal es' := by
  induction es with
  | nil => simp [lostTotal]
  | cons e es ih =>
    cases e
    · simpa [lostTotal] using ih
    · simp only [List.cons_append, lostTotal, ih]
      omega

theorem tiles_append : Tiles a (es ++ es') c ↔ ∃ b, Tiles a es b ∧ Tiles b es' c := by
  induction es generalizing a with
  | nil => simp [Tiles]
  | cons e es ih => cases e <;> simp [Tiles, ih, and_assoc]

theorem Tiles.append (h : Tiles a es b) (h' : Tiles b es' c) : Tiles a (es ++ es') c :=
  tiles_append.mpr ⟨b, h, h'⟩

theorem Prompt.append (h : Prompt es) (h' : Prompt es') : Prompt (es ++ es') := by
  induction es with
  | nil => exact h'
  | cons e es ih =>
    cases e with
    | item n x => exact ih h
    | lost k =>
      obtain ⟨⟨n, x, rest, rfl⟩, ht⟩ := h
      exact ⟨⟨n, x, rest ++ es', rfl⟩, ih ht⟩

theorem Prompt.suffix (h : Prompt (es ++ es')) : Prompt es' := by
  induction es with
  | nil => exact h
  | cons e es ih =>
    cases e with
    | item n x => exact ih h
    | lost k => exact ih h.2

theorem Tiles.le (h : Tiles a es b) : a ≤ b := by
  induction es generalizing a with
  | nil => exact Int.le_of_eq h
  | cons e es ih =>
    cases e with
    | item n x =>
      have := ih h.2
      omega
    | lost k =>
      obtain ⟨hk, ht⟩ := h
      have := ih ht
      omega

theorem Tiles.bounds (h : Tiles a es b) (hn : n ∈ handled es) : a ≤ n ∧ n < b := by
  induction es generalizing a with
  | nil => cases hn
  | cons e es ih =>
    cases e with
    | item m x =>
      obtain ⟨rfl, ht⟩ := h
      have hle := ht.le
      rcases List.mem_cons.mp hn with rfl | hn
      · omega
      · have := ih ht hn
        omega
    | lost k =>
      obtain ⟨hk, ht⟩ := h
      have := ih ht hn
      omega

/-- No item comes twice, and none behind a later one. -/
theorem Tiles.increasing (h : Tiles a es b) : (handled es).Pairwise (· < ·) := by
  induction es generalizing a with
  | nil => exact List.Pairwise.nil
  | cons e es ih =>
    cases e with
    | item m x =>
      obtain ⟨rfl, ht⟩ := h
      refine List.pairwise_cons.mpr ⟨?_, ih ht⟩
      intro n hn
      have := ht.bounds hn
      omega
    | lost k => exact ih h.2

/-- Every number is that of an item or was told to be lost. -/
theorem Tiles.total (h : Tiles a es b) : lostTotal es + (handled es).length = b - a := by
  induction es generalizing a with
  | nil =>
    have : a = b := h
    simp [lostTotal, handled]
    omega
  | cons e es ih =>
    cases e with
    | item m x =>
      have := ih h.2
      simp only [lostTotal, handled, List.length_cons]
      omega
    | lost k =>
      have := ih h.2
      simp only [lostTotal, handled]
      omega

theorem Tiles.card_skipped (h : Tiles a es b) : ((skipped a b es).card : Int) = lostTotal es := by
  have hsub : (handled es).toFinset ⊆ Finset.Ico a b := by
    intro n hn
    exact Finset.mem_Ico.mpr (h.bounds (List.mem_toFinset.mp hn))
  have hnodup : (handled es).Nodup := h.increasing.imp fun hlt => Int.ne_of_lt hlt
  have hcard : (handled es).toFinset.card = (handled es).length := List.toFinset_card_of_nodup hnodup
  have hle := Finset.card_le_card hsub
  have htotal := h.total
  have hab := h.le
  unfold skipped
  rw [Finset.card_sdiff_of_subset hsub, hcard]
  rw [hcard] at hle
  simp only [Int.card_Ico] at hle ⊢
  omega

/-- What was told to be lost when an item comes are the numbers below it without an item. -/
theorem Tiles.before_item (h : Tiles a (pre ++ .item n x :: post) b) :
    ((skipped a n pre).card : Int) = lostTotal pre := by
  obtain ⟨c, hpre, hn, -⟩ := tiles_append.mp h
  exact (hn ▸ hpre).card_skipped

/-- Between two items that follow each other stands what was lost between them, and nothing else. -/
theorem Tiles.between (h : Tiles a (pre ++ .item m x :: (mid ++ .item n y :: post)) b)
    (hp : Prompt (pre ++ .item m x :: (mid ++ .item n y :: post))) (hmid : handled mid = []) :
    mid = if n = m + 1 then [] else [.lost (n - m - 1)] := by
  obtain ⟨c, -, hm, hrest⟩ := tiles_append.mp h
  subst hm
  obtain ⟨d, htile, hn, -⟩ := tiles_append.mp hrest
  have hprompt : Prompt (mid ++ .item n y :: post) := hp.suffix
  cases mid with
  | nil =>
    have hd : m + 1 = d := htile
    rw [if_pos (by omega)]
  | cons e mid =>
    cases e with
    | item k z => cases hmid
    | lost k =>
      obtain ⟨⟨n', z, rest, hr⟩, -⟩ := hprompt
      obtain ⟨hk, hd⟩ := htile
      cases mid with
      | nil =>
        have hd : m + 1 + k = d := hd
        rw [if_neg (by omega), show n - m - 1 = k by omega]
      | cons e mid =>
        obtain ⟨rfl, -⟩ := List.cons.inj hr
        cases hmid

end Delivery
