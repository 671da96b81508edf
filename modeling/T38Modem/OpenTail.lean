import Mathlib.Data.List.Nodup

/-- A queue of places that are written one after the other, each with the flag that it is closed. The
writer holds the last one while it is open. -/
structure OpenTail {ι : Type*} (cells : List (ι × Bool)) (held : Option ι) : Prop where
  nodup : (cells.map Prod.fst).Nodup
  tail : ∀ i, held = some i → ∃ front, cells = front ++ [(i, false)]
  closed : ∀ c ∈ cells, held ≠ some c.1 → c.2 = true

namespace OpenTail

variable {ι : Type*} {cells cells' : List (ι × Bool)} {c : ι × Bool} {held : Option ι} {i : ι}

theorem nil : OpenTail ([] : List (ι × Bool)) none := ⟨.nil, nofun, nofun⟩

theorem push (h : OpenTail cells none) (hi : i ∉ cells.map Prod.fst) : OpenTail (cells ++ [(i, false)]) (some i) := by
  refine ⟨?_, fun j hj => ?_, fun c hc hn => ?_⟩
  · rw [List.map_append, List.nodup_append]
    refine ⟨h.nodup, by simp, fun a ha b hb he => hi ?_⟩
    have hb : b = i := List.mem_singleton.mp hb
    rwa [← hb, ← he]
  · cases hj
    exact ⟨cells, rfl⟩
  · rcases List.mem_append.mp hc with hc | hc
    · exact h.closed c hc nofun
    · rw [List.mem_singleton.mp hc] at hn
      exact absurd rfl hn

/-- The writer closes what it holds. -/
theorem close [DecidableEq ι] (h : OpenTail cells (some i)) :
    OpenTail (cells.map fun c => if c.1 = i then (c.1, true) else c) none := by
  refine ⟨?_, nofun, fun c hc _ => ?_⟩
  · have hids : (cells.map fun c => if c.1 = i then (c.1, true) else c).map Prod.fst = cells.map Prod.fst := by
      rw [List.map_map]
      refine List.map_congr_left fun c _ => ?_
      dsimp only [Function.comp]
      split <;> rfl
    rw [hids]
    exact h.nodup
  · obtain ⟨d, hd, rfl⟩ := List.mem_map.mp hc
    split
    next => rfl
    next hne => exact h.closed d hd fun he => hne (Option.some.inj he).symm

/-- The reader takes the first place away, from the writer too. -/
theorem pop [DecidableEq ι] (h : OpenTail (c :: cells) held) :
    OpenTail cells (if held = some c.1 then none else held) := by
  have hn : c.1 ∉ cells.map Prod.fst := (List.nodup_cons.mp h.nodup).1
  refine ⟨(List.nodup_cons.mp h.nodup).2, fun i hi => ?_, fun d hd hne => ?_⟩
  · obtain ⟨hc, hh⟩ := Option.ite_none_left_eq_some.mp hi
    obtain ⟨front, hf⟩ := h.tail i hh
    cases front with
    | nil =>
      obtain ⟨rfl, -⟩ := List.cons.inj hf
      exact absurd hh hc
    | cons f front => exact ⟨front, (List.cons.inj hf).2⟩
  · have hmem : d ∈ c :: cells := List.mem_cons_of_mem _ hd
    refine h.closed d hmem fun he => ?_
    split at hne
    next hc =>
      have hid : c.1 = d.1 := Option.some.inj (hc.symm.trans he)
      exact hn (hid ▸ List.mem_map_of_mem hd)
    next => exact hne he

/-- The places of another queue come behind those of one that is not written any more. -/
theorem append (h : OpenTail cells none) (h' : OpenTail cells' held)
    (hd : (cells.map Prod.fst).Disjoint (cells'.map Prod.fst)) : OpenTail (cells ++ cells') held := by
  refine ⟨?_, fun i hi => ?_, fun c hc hne => ?_⟩
  · rw [List.map_append]
    exact h.nodup.append h'.nodup hd
  · obtain ⟨front, rfl⟩ := h'.tail i hi
    exact ⟨cells ++ front, by simp⟩
  · rcases List.mem_append.mp hc with hc | hc
    · exact h.closed c hc nofun
    · exact h'.closed c hc hne

end OpenTail
