import Mathlib.Data.List.Induction
import Mathlib.Data.List.Nodup
import T38Modem.ChunkStream

namespace T38Modem

namespace ChunkStream

variable {c c' : ChunkStream} {bs : List Byte} {n : Nat}

theorem write_none (h : c.write bs = none) : c.last = chunkSize := by
  unfold write at h
  split at h
  next hz =>
    have := c.last_le
    unfold last at hz ⊢
    omega
  next => cases h

/-- What is written is behind what was there. -/
theorem write_some (h : c.write bs = some (n, c')) :
    c'.rest = c.rest ++ bs.take n ∧ n ≤ bs.length ∧ (bs ≠ [] → 0 < n) := by
  unfold write at h
  split at h
  next => cases h
  next hz =>
    obtain ⟨rfl, rfl⟩ := Prod.mk.inj (Option.some.inj h)
    refine ⟨?_, ?_, fun hne => ?_⟩
    · rw [show bs.take (bs.take (chunkSize - c.last)).length = bs.take (chunkSize - c.last) by simp]
      exact List.drop_append_of_le_length c.first_le
    · rw [List.length_take]
      omega
    · have := List.length_pos_iff.mpr hne
      rw [List.length_take]
      omega

theorem read_none (h : c.read n = none) : c.rest = [] := by
  unfold read at h
  split at h
  next hf =>
    have hd := c.first_le
    have hl := c.last_le
    exact List.drop_eq_nil_iff.mpr (by omega)
  next => cases h

theorem read_some (h : c.read n = some (bs, c')) :
    c.rest = bs ++ c'.rest ∧ bs.length ≤ n ∧ c'.last = c.last ∧
      (bs = [] → 0 < n → c.last ≠ chunkSize ∧ c.rest = []) := by
  unfold read at h
  split at h
  next => cases h
  next hf =>
    obtain ⟨rfl, rfl⟩ := Prod.mk.inj (Option.some.inj h)
    refine ⟨?_, List.length_take_le _ _, rfl, fun hb hn => ?_⟩
    · have hp := List.prefix_iff_eq_append.mp (List.take_prefix n c.rest)
      refine hp.symm.trans (congrArg _ ?_)
      exact List.drop_drop
    · have hr : c.rest = [] := by
        rcases List.take_eq_nil_iff.mp hb with h0 | h0
        · omega
        · exact h0
      have hd := List.drop_eq_nil_iff.mp hr
      have hle := c.first_le
      have hlast := c.last_le
      exact ⟨by unfold last; omega, hr⟩

end ChunkStream

namespace ChunkedStream

/-- The chunks of the stream, from the oldest on. -/
def chain (s : ChunkedStream) : List ChunkId := s.firstBuf.toList ++ s.bufQ

def restAt (s : ChunkedStream) (p : ChunkId) : List Byte := (s.heap p).elim [] ChunkStream.rest

/-- The octets that have been put and not been got. -/
def pending (s : ChunkedStream) : List Byte := s.chain.flatMap s.restAt

/-- What a stream holds beside its chunks. -/
def flags (s : ChunkedStream) : Nat × Nat × Bool × Diag := (s.busy, s.threshold, s.eof, s.diag)

/-- The chunks on the heap are those of the stream, and but for the last one they are full. -/
structure Chained (s : ChunkedStream) : Prop where
  nodup : s.chain.Nodup
  alloc : ∀ p, (s.heap p).isSome = true ↔ p ∈ s.chain
  fresh : ∀ p ∈ s.chain, p < s.next
  full : ∀ p c, s.lastBuf ≠ some p → s.heap p = some c → c.last = chunkSize

/-- The chunk that is filled is the last one. -/
def LastIn (s : ChunkedStream) : Prop := ∀ p, s.lastBuf = some p → ∃ init, s.chain = init ++ [p]

variable {s t : ChunkedStream} {p : ChunkId} {c c' : ChunkStream} {ps : List ChunkId} {bs done : List Byte} {n k : Nat}

@[simp] theorem store_self (o : Option ChunkStream) : (s.store p o).heap p = o := Function.update_self ..

theorem store_ne {q : ChunkId} (h : q ≠ p) (o : Option ChunkStream) : (s.store p o).heap q = s.heap q :=
  Function.update_of_ne h ..

theorem restAt_some (h : s.heap p = some c) : s.restAt p = c.rest := by
  rw [restAt, h]
  rfl

theorem flatMap_store (h : p ∉ ps) (o : Option ChunkStream) : ps.flatMap (s.store p o).restAt = ps.flatMap s.restAt := by
  refine List.flatMap_congr fun q hq => ?_
  have hne : q ≠ p := fun he => h (he ▸ hq)
  rw [restAt, store_ne hne]
  rfl

theorem restAt_store : (s.store p (some c)).restAt p = c.rest := restAt_some (store_self _)

theorem Chained.heap_some (h : s.Chained) (hp : p ∈ s.chain) : ∃ c, s.heap p = some c :=
  Option.isSome_iff_exists.mp ((h.alloc p).mpr hp)

/-- Another content of a chunk of the stream. -/
theorem Chained.store (h : s.Chained) (hp : p ∈ s.chain) (hl : s.lastBuf ≠ some p → c.last = chunkSize) :
    (s.store p (some c)).Chained := by
  refine ⟨h.nodup, fun q => ?_, h.fresh, fun q d hq hd => ?_⟩
  · by_cases hq : q = p
    · subst hq
      exact iff_of_true (by rw [store_self]; rfl) hp
    · rw [store_ne hq]
      exact h.alloc q
  · by_cases he : q = p
    · subst he
      cases (store_self _).symm.trans hd
      exact hl hq
    · exact h.full q d hq ((store_ne he _).symm.trans hd)

theorem chain_newChunk : s.newChunk.chain = s.chain ++ [s.next] := (List.append_assoc ..).symm

theorem Chained.newChunk (h : s.Chained) (hl : s.lastBuf = none) :
    s.newChunk.Chained ∧ s.newChunk.LastIn ∧ s.newChunk.pending = s.pending := by
  have hnext : s.next ∉ s.chain := fun hm => Nat.lt_irrefl _ (h.fresh _ hm)
  refine ⟨⟨?_, fun q => ?_, fun q hq => ?_, fun q d hq hd => ?_⟩, fun q hq => ?_, ?_⟩
  · rw [chain_newChunk]
    exact h.nodup.append (List.nodup_singleton _) (by simpa using hnext)
  · rw [chain_newChunk, List.mem_append, List.mem_singleton]
    by_cases he : q = s.next
    · subst he
      exact iff_of_true (congrArg Option.isSome (store_self (s := s) (some {}))) (.inr rfl)
    · have hsame : s.newChunk.heap q = s.heap q := store_ne he _
      rw [hsame, h.alloc q]
      simp [he]
  · rw [chain_newChunk] at hq
    rcases List.mem_append.mp hq with hq | hq
    · exact Nat.lt_succ_of_lt (h.fresh q hq)
    · rw [List.mem_singleton.mp hq]
      exact Nat.lt_succ_self _
  · have hne : q ≠ s.next := fun he => hq (congrArg some he.symm)
    have hsame : s.newChunk.heap q = s.heap q := store_ne hne _
    exact h.full q d (by rw [hl]; nofun) (hsame ▸ hd)
  · cases Option.some.inj (hq : some s.next = some q)
    exact ⟨s.chain, chain_newChunk⟩
  · have hnew : s.newChunk.restAt s.next = [] := restAt_store
    have hold : s.chain.flatMap s.newChunk.restAt = s.chain.flatMap s.restAt := flatMap_store hnext _
    rw [pending, chain_newChunk, List.flatMap_append, hold, List.flatMap_singleton, hnew, List.append_nil]
    rfl

theorem mem_chain_of_last {init : List ChunkId} (h : s.chain = init ++ [p]) : p ∈ s.chain := by
  rw [h]
  exact List.mem_append_right _ List.mem_cons_self

/-- The last chunk gets more octets. -/
theorem Chained.pending_store_last {init : List ChunkId} (h : s.Chained) (hch : s.chain = init ++ [p])
    (hc : s.heap p = some c) (hr : c'.rest = c.rest ++ bs) : (s.store p (some c')).pending = s.pending ++ bs := by
  have hnot : p ∉ init := by
    have hn := h.nodup
    rw [hch] at hn
    exact fun hm => (List.disjoint_of_nodup_append hn) hm List.mem_cons_self
  have hch' : (s.store p (some c')).chain = init ++ [p] := hch
  rw [pending, pending, hch, hch', List.flatMap_append, List.flatMap_append, flatMap_store hnot, List.flatMap_singleton,
    List.flatMap_singleton, restAt_store, restAt_some hc, hr, List.append_assoc]

/-- The chunk that a round of `PutData` writes to. -/
theorem Chained.fill (h : s.Chained) (hl : s.LastIn) : ∃ u, (if s.lastBuf = none then s.newChunk else s) = u ∧
    u.Chained ∧ u.LastIn ∧ u.pending = s.pending ∧ u.flags = s.flags ∧
    ∃ p c, u.lastBuf = some p ∧ u.heap p = some c ∧
      (c.last = chunkSize → ∃ p c, s.lastBuf = some p ∧ s.heap p = some c ∧ c.last = chunkSize) := by
  cases hb : s.lastBuf with
  | none =>
    obtain ⟨hc, hlast, hp⟩ := h.newChunk hb
    exact ⟨_, rfl, hc, hlast, hp, rfl, s.next, {}, rfl, store_self _, nofun⟩
  | some p =>
    obtain ⟨init, hch⟩ := hl p hb
    obtain ⟨c, hc⟩ := h.heap_some (mem_chain_of_last hch)
    exact ⟨s, rfl, h, hl, rfl, rfl, p, c, hb, hc, fun hf => ⟨p, c, rfl, hc, hf⟩⟩

/-- `PutData` puts every octet behind those that are there. A round that finds the chunk full is followed by
one that writes. -/
theorem putLoop_some (h : s.Chained) (hl : s.LastIn) (hn : 2 * bs.length ≤ n)
    (hfull : (∃ p c, s.lastBuf = some p ∧ s.heap p = some c ∧ c.last = chunkSize) → 2 * bs.length < n) :
    ∃ t, putLoop n s bs k = some (k + bs.length, t) ∧ t.Chained ∧ t.LastIn ∧ t.pending = s.pending ++ bs ∧
      t.flags = s.flags := by
  induction n generalizing s bs k with
  | zero =>
    have hbs : bs = [] := List.length_eq_zero_iff.mp (by omega)
    subst hbs
    exact ⟨s, rfl, h, hl, (List.append_nil _).symm, rfl⟩
  | succ n ih =>
    cases bs with
    | nil => exact ⟨s, rfl, h, hl, (List.append_nil _).symm, rfl⟩
    | cons b bs =>
      obtain ⟨u, hu, hc, hlast, hp, hflags, p, c, hpl, hpc, hf⟩ := h.fill hl
      unfold putLoop
      rw [hu]
      dsimp only
      rw [hpl]
      dsimp only
      rw [hpc]
      dsimp only
      cases hw : c.write (b :: bs) with
      | none =>
        have hcf := ChunkStream.write_none hw
        have hroom := hfull (hf hcf)
        have hnext : ({ u with lastBuf := none } : ChunkedStream).Chained := by
          refine ⟨hc.nodup, hc.alloc, hc.fresh, fun q d _ hd => ?_⟩
          by_cases he : q = p
          · subst he
            cases hpc.symm.trans hd
            exact hcf
          · exact hc.full q d (by rw [hpl]; exact fun hq => he (Option.some.inj hq).symm) hd
        obtain ⟨t, ht, htc, htl, htp, htf⟩ := @ih { u with lastBuf := none } (b :: bs) k hnext nofun (by omega)
          fun ⟨_, _, hx, _⟩ => nomatch hx
        exact ⟨t, ht, htc, htl, htp.trans (congrArg (· ++ _) hp), htf.trans hflags⟩
      | some r =>
        obtain ⟨len, c'⟩ := r
        obtain ⟨hrest, hle, hpos⟩ := ChunkStream.write_some hw
        have hpos := hpos nofun
        obtain ⟨init, hch⟩ := hlast p hpl
        have hnext : (u.store p (some c')).Chained := hc.store (mem_chain_of_last hch) fun hx => absurd hpl hx
        have hlen : ((b :: bs).drop len).length = (b :: bs).length - len := List.length_drop
        obtain ⟨t, ht, htc, htl, htp, htf⟩ := @ih _ ((b :: bs).drop len) (k + len) hnext hlast (by omega) fun _ => by omega
        refine ⟨t, ?_, htc, htl, ?_, htf.trans hflags⟩
        · rw [hlen, show k + len + ((b :: bs).length - len) = k + (b :: bs).length by omega] at ht
          exact ht
        · rw [htp, hc.pending_store_last hch hpc hrest, hp, List.append_assoc, List.take_append_drop]

/-- The chunk that a round of `GetData` reads from. -/
theorem Chained.front (h : s.Chained) : ∃ u,
    (if s.firstBuf = none then { s with firstBuf := s.bufQ.head?, bufQ := s.bufQ.tail } else s) = u ∧
    u.Chained ∧ u.chain = s.chain ∧ u.heap = s.heap ∧ u.lastBuf = s.lastBuf ∧ u.flags = s.flags ∧
    (u.firstBuf = none → u.chain = []) := by
  cases hb : s.firstBuf with
  | none =>
    have hch : ({ s with firstBuf := s.bufQ.head?, bufQ := s.bufQ.tail } : ChunkedStream).chain = s.chain := by
      rw [chain, chain, hb]
      cases s.bufQ <;> rfl
    refine ⟨{ s with firstBuf := s.bufQ.head?, bufQ := s.bufQ.tail }, rfl,
      ⟨hch ▸ h.nodup, fun q => hch ▸ h.alloc q, hch ▸ h.fresh, h.full⟩, hch, rfl, rfl, rfl, fun hn => ?_⟩
    rw [hch, chain, hb, List.head?_eq_none_iff.mp hn]
    rfl
  | some p => exact ⟨s, rfl, h, rfl, rfl, rfl, rfl, fun hn => absurd (hb.symm.trans hn) nofun⟩

theorem pending_congr (hc : t.chain = s.chain) (hh : t.heap = s.heap) : t.pending = s.pending := by
  have hr : t.restAt = s.restAt := funext fun p => by rw [restAt, restAt, hh]
  rw [pending, pending, hc, hr]

/-- The first chunk is deleted. -/
theorem Chained.delete_first (h : s.Chained) (hf : s.firstBuf = some p) (hc : s.heap p = some c) :
    ∃ t, s.delete p = some t ∧ ({ t with firstBuf := none } : ChunkedStream).Chained ∧
      ({ t with firstBuf := none } : ChunkedStream).chain = s.bufQ ∧ t.lastBuf = s.lastBuf ∧ t.flags = s.flags ∧
      ({ t with firstBuf := none } : ChunkedStream).pending = s.bufQ.flatMap s.restAt := by
  have hch : s.chain = p :: s.bufQ := by
    rw [chain, hf]
    rfl
  obtain ⟨hnot, hnodup⟩ := List.nodup_cons.mp (hch ▸ h.nodup)
  refine ⟨s.store p none, by rw [delete, hc], ⟨hnodup, fun q => ?_, fun q hq => h.fresh q ?_, fun q d hq hd => ?_⟩, rfl, rfl, rfl,
    flatMap_store hnot none⟩
  · by_cases he : q = p
    · subst he
      exact iff_of_false (by rw [show ({ s.store q none with firstBuf := none } : ChunkedStream).heap q = none from store_self _]; nofun) hnot
    · have hsame : (s.store p none).heap q = s.heap q := store_ne he _
      have hmem := h.alloc q
      rw [hch, List.mem_cons, ← hsame] at hmem
      exact hmem.trans ⟨fun hx => hx.resolve_left he, .inr⟩
  · rw [hch]
    exact List.mem_cons_of_mem _ hq
  · have he : q ≠ p := by
      rintro rfl
      cases (store_self _).symm.trans hd
    exact h.full q d hq ((store_ne he _).symm.trans hd)

/-- Octets of the first chunk are read. -/
theorem Chained.read_first (h : s.Chained) (hf : s.firstBuf = some p) (hc : s.heap p = some c)
    (hr : c.read n = some (bs, c')) : (s.store p (some c')).Chained ∧ s.pending = bs ++ (s.store p (some c')).pending := by
  obtain ⟨hrest, -, hlen, -⟩ := ChunkStream.read_some hr
  have hch : s.chain = p :: s.bufQ := by
    rw [chain, hf]
    rfl
  have hnot : p ∉ s.bufQ := (List.nodup_cons.mp (hch ▸ h.nodup)).1
  refine ⟨h.store (hch ▸ List.mem_cons_self) fun hx => hlen.trans (h.full p c hx hc), ?_⟩
  rw [pending, pending, hch, show (s.store p (some c')).chain = p :: s.bufQ from hch, List.flatMap_cons, List.flatMap_cons,
    restAt_some hc, restAt_store, flatMap_store hnot, hrest, List.append_assoc]

/-- A chunk that has nothing to read and is not full is the only one. -/
theorem Chained.drained (h : s.Chained) (hl : s.LastIn) (hf : s.firstBuf = some p) (hc : s.heap p = some c)
    (hroom : c.last ≠ chunkSize) (hnil : c.rest = []) : s.pending = [] := by
  have hch : s.chain = p :: s.bufQ := by
    rw [chain, hf]
    rfl
  have hp : s.lastBuf = some p := by
    by_contra hx
    exact hroom (h.full p c hx hc)
  have hq : s.bufQ = [] := by
    obtain ⟨init, hi⟩ := hl p hp
    rw [hch] at hi
    cases init with
    | nil => exact (List.cons.inj hi).2
    | cons _ init =>
      refine absurd ?_ (List.nodup_cons.mp (hch ▸ h.nodup)).1
      rw [(List.cons.inj hi).2]
      exact List.mem_append_right _ List.mem_cons_self
  rw [pending, hch, hq, List.flatMap_cons, restAt_some hc, hnil]
  rfl

/-- There is no chunk. -/
theorem Chained.empty (h : s.Chained) (hch : s.chain = []) :
    Chained { s with firstBuf := none, lastBuf := none } ∧
      ({ s with firstBuf := none, lastBuf := none } : ChunkedStream).chain = [] ∧ s.pending = [] := by
  have hq : s.bufQ = [] := (List.append_eq_nil_iff.mp hch).2
  have hempty : ∀ q, s.heap q = none := fun q => by
    by_contra hx
    have hm := (h.alloc q).mp (Option.isSome_iff_ne_none.mpr hx)
    rw [hch] at hm
    cases hm
  have hch0 : ({ s with firstBuf := none, lastBuf := none } : ChunkedStream).chain = [] := hq
  refine ⟨⟨hch0 ▸ List.nodup_nil, fun q => ?_, fun q hm => ?_, fun q d _ hd => ?_⟩, hch0, ?_⟩
  · rw [hch0, hempty q]
    exact iff_of_false nofun nofun
  · rw [hch0] at hm
    cases hm
  · cases (hempty q).symm.trans hd
  · rw [pending, hch]
    rfl

/-- `GetData` gets the oldest octets, as many as there are. -/
theorem getLoop_some (h : s.Chained) (hl : s.LastIn ∨ s.chain = [] ∧ 0 < k) (hn : 0 < k → k + s.chain.length < n) :
    ∃ t, getLoop n s k done = some (done ++ s.pending.take k, t) ∧ t.Chained ∧ t.LastIn ∧
      t.pending = s.pending.drop k ∧ t.flags = s.flags := by
  induction n generalizing s k done with
  | zero =>
    have hk : k = 0 := by
      by_contra hk
      exact absurd (hn (Nat.pos_of_ne_zero hk)) (by omega)
    subst hk
    have hlast : s.LastIn := hl.resolve_right fun hx => Nat.lt_irrefl 0 hx.2
    exact ⟨s, by rw [getLoop, List.take_zero, List.append_nil], h, hlast, rfl, rfl⟩
  | succ n ih =>
    cases k with
    | zero =>
      have hlast : s.LastIn := hl.resolve_right fun hx => Nat.lt_irrefl 0 hx.2
      exact ⟨s, by rw [getLoop, List.take_zero, List.append_nil], h, hlast, rfl, rfl⟩
    | succ k =>
      have hn := hn (Nat.succ_pos k)
      obtain ⟨u, hu, hc, hch, hheap, hlb, hflags, hnone⟩ := h.front
      have hpend : u.pending = s.pending := pending_congr hch hheap
      unfold getLoop
      rw [hu]
      dsimp only
      cases hfb : u.firstBuf with
      | none =>
        obtain ⟨hc0, hch0, hpn⟩ := hc.empty (hnone hfb)
        rw [hpend] at hpn
        refine ⟨{ u with firstBuf := none, lastBuf := none }, by rw [hpn, List.take_nil, List.append_nil], hc0, nofun, ?_, hflags⟩
        rw [pending, hch0, hpn]
        rfl
      | some p =>
        have hchu : u.chain = p :: u.bufQ := by
          rw [chain, hfb]
          rfl
        obtain ⟨c, hpc⟩ := hc.heap_some (hchu ▸ List.mem_cons_self)
        have hlast : u.LastIn := by
          intro q hq
          rcases hl with hl | hl
          · rw [hch]
            exact hl q (hlb ▸ hq)
          · rw [← hch, hchu] at hl
            exact nomatch hl.1
        rw [← hch, hchu, List.length_cons] at hn
        dsimp only
        rw [hpc]
        dsimp only
        cases hr : c.read (k + 1) with
        | none =>
          -- the chunk is read to its end; where it was the last one, the next round finds none
          obtain ⟨v, hv, hvc, hvch, hvl, hvf, hvp⟩ := hc.delete_first hfb hpc
          rw [hv]
          have hnext : LastIn { v with firstBuf := none } ∨
              ({ v with firstBuf := none } : ChunkedStream).chain = [] ∧ 0 < k + 1 := by
            rw [LastIn, hvch]
            by_cases hq : u.bufQ = []
            · exact .inr ⟨hq, Nat.succ_pos k⟩
            · refine .inl fun q hx => ?_
              obtain ⟨init, hi⟩ := hlast q (hvl ▸ hx)
              rw [hchu] at hi
              cases init with
              | nil => exact absurd (List.cons.inj hi).2 hq
              | cons _ init => exact ⟨init, (List.cons.inj hi).2⟩
          obtain ⟨t, ht, htc, htl, htp, htf⟩ := @ih { v with firstBuf := none } done _ hvc hnext fun _ => by rw [hvch]; omega
          have hsame : ({ v with firstBuf := none } : ChunkedStream).pending = s.pending := by
            rw [hvp, ← hpend, pending, hchu, List.flatMap_cons, restAt_some hpc, ChunkStream.read_none hr]
            rfl
          exact ⟨t, by rw [← hsame]; exact ht, htc, htl, hsame ▸ htp, (htf.trans hvf).trans hflags⟩
        | some r =>
          obtain ⟨part, c'⟩ := r
          obtain ⟨-, hle, -, hend⟩ := ChunkStream.read_some hr
          obtain ⟨hstore, hcut⟩ := hc.read_first hfb hpc hr
          cases part with
          | nil =>
            obtain ⟨hroom, hnil⟩ := hend rfl (Nat.succ_pos k)
            have hpn : s.pending = [] := hpend.symm.trans (hc.drained hlast hfb hpc hroom hnil)
            refine ⟨_, by rw [hpn, List.take_nil, List.append_nil], hstore, hlast, ?_, hflags⟩
            exact hcut.symm.trans (hpend.trans (by rw [hpn]; rfl))
          | cons x xs =>
            rw [hpend] at hcut
            have hfuel : 0 < k + 1 - (x :: xs).length → k + 1 - (x :: xs).length + (u.store p (some c')).chain.length < n := by
              intro _
              rw [show (u.store p (some c')).chain = p :: u.bufQ from hchu, List.length_cons, List.length_cons]
              omega
            obtain ⟨t, ht, htc, htl, htp, htf⟩ := @ih _ (done ++ x :: xs) _ hstore (.inl hlast) hfuel
            refine ⟨t, ?_, htc, htl, ?_, htf.trans hflags⟩
            · refine ht.trans ?_
              rw [hcut, List.take_append, List.take_of_length_le hle, List.append_assoc]
            · rw [htp, hcut, List.drop_append, List.drop_eq_nil_iff.mpr hle]
              rfl

theorem foldlM_delete (hn : ps.Nodup) (ha : ∀ p ∈ ps, (s.heap p).isSome = true) :
    ps.foldlM delete s = some { s with heap := fun q => if q ∈ ps then none else s.heap q } := by
  induction ps generalizing s with
  | nil => simp
  | cons p ps ih =>
    obtain ⟨hnot, hn⟩ := List.nodup_cons.mp hn
    obtain ⟨c, hc⟩ := Option.isSome_iff_exists.mp (ha p List.mem_cons_self)
    have hrest : ∀ q ∈ ps, ((s.store p none).heap q).isSome = true := fun q hq => by
      have hne : q ≠ p := fun he => hnot (he ▸ hq)
      rw [store_ne hne]
      exact ha q (List.mem_cons_of_mem p hq)
    have hdel : s.delete p = some (s.store p none) := by rw [delete, hc]
    rw [List.foldlM_cons, hdel]
    refine (ih hn hrest).trans (congrArg some ?_)
    have hheap : (fun q => if q ∈ ps then none else (s.store p none).heap q) = fun q => if q ∈ p :: ps then none else s.heap q := by
      funext q
      by_cases he : q = p
      · subst he
        rw [if_neg hnot, if_pos List.mem_cons_self, store_self]
      · rw [store_ne he]
        simp [he]
    rw [hheap]
    rfl

/-- Every chunk is deleted, and no chunk twice. -/
theorem Chained.clean (h : s.Chained) : s.clean = some { heap := fun _ => none, next := s.next, threshold := s.threshold } := by
  obtain ⟨hfirst, hq, hdis⟩ := List.nodup_append.mp h.nodup
  have hqa : ∀ p ∈ s.bufQ, (s.heap p).isSome = true := fun p hp => (h.alloc p).mpr (List.mem_append_right _ hp)
  unfold ChunkedStream.clean
  rw [foldlM_delete hq hqa]
  dsimp only [Option.bind_some]
  rw [foldlM_delete hfirst]
  · refine congrArg some ?_
    have hheap : (fun q => if q ∈ s.firstBuf.toList then none else if q ∈ s.bufQ then none else s.heap q) = fun _ => none := by
      funext q
      split
      next => rfl
      next h1 =>
        split
        next => rfl
        next h2 =>
          have hmem : q ∉ s.chain := fun hm => (List.mem_append.mp hm).elim h1 h2
          exact Option.not_isSome_iff_eq_none.mp fun hx => hmem ((h.alloc q).mp hx)
    dsimp only
    rw [hheap]
  · intro p hp
    have hnot : p ∉ s.bufQ := fun hm => hdis p hp p hm rfl
    show (if p ∈ s.bufQ then none else s.heap p).isSome = true
    rw [if_neg hnot]
    exact (h.alloc p).mpr (List.mem_append_left _ hp)

/-- A stream between two calls. -/
structure Whole (s : ChunkedStream) : Prop extends Chained s where
  last : s.LastIn
  busy : s.busy = s.pending.length

/-- What the stream is to its callers. -/
def toDataStream (s : ChunkedStream) : DataStream :=
  { data := s.pending, threshold := s.threshold, eof := s.eof, diag := s.diag }

theorem of_flags (h : t.flags = s.flags) :
    t.busy = s.busy ∧ t.threshold = s.threshold ∧ t.eof = s.eof ∧ t.diag = s.diag := by simpa [flags] using h

theorem Chained.count (h : s.Chained) (n : Nat) : Chained { s with busy := n } := ⟨h.nodup, h.alloc, h.fresh, h.full⟩

theorem Whole.new (next : ChunkId) (threshold : Nat) : Whole { heap := fun _ => none, next, threshold } :=
  ⟨⟨List.nodup_nil, fun _ => iff_of_false nofun nofun, nofun, nofun⟩, nofun, rfl⟩

theorem putData_refines (h : s.Whole) (bs : List Byte) :
    ∃ t, s.putData bs = some ((s.toDataStream.putData bs).1, t) ∧ t.Whole ∧
      t.toDataStream = (s.toDataStream.putData bs).2 := by
  unfold putData DataStream.putData
  cases he : s.eof with
  | true => exact ⟨s, by simp [toDataStream, he], h, by simp [toDataStream, he]⟩
  | false =>
    obtain ⟨t, ht, hc, hl, hp, hf⟩ := putLoop_some (k := 0) (n := 2 * bs.length + 1) h.toChained h.last (Nat.le_succ _)
      fun _ => Nat.lt_succ_self _
    obtain ⟨hb, hthr, heof, hdiag⟩ := of_flags hf
    rw [ht]
    refine ⟨{ t with busy := t.busy + (0 + bs.length) }, by simp [toDataStream, he], ⟨hc.count _, hl, ?_⟩, ?_⟩
    · show t.busy + (0 + bs.length) = t.pending.length
      rw [hp, hb, h.busy, List.length_append, Nat.zero_add]
    · show DataStream.mk t.pending t.threshold t.eof t.diag = _
      rw [hp, hthr, heof, hdiag, he]
      simp [toDataStream, he]

theorem getData_refines (h : s.Whole) (count : Nat) :
    ∃ t, s.getData count = some ((s.toDataStream.getData count).1, t) ∧ t.Whole ∧
      t.toDataStream = (s.toDataStream.getData count).2 := by
  have hbusy : s.busy = 0 ↔ s.pending = [] := by rw [h.busy, List.length_eq_zero_iff]
  unfold getData DataStream.getData
  by_cases hp : s.pending = []
  · rw [if_pos (hbusy.mpr hp), if_pos (show s.toDataStream.data = [] from hp)]
    refine ⟨s, ?_, h, ?_⟩
    · cases he : s.eof <;> simp [toDataStream, he]
    · cases he : s.eof <;> simp [toDataStream, he]
  · have hlen : s.chain.length ≤ s.bufQ.length + 1 := by
      rw [chain, List.length_append]
      have : s.firstBuf.toList.length ≤ 1 := by cases s.firstBuf <;> simp
      omega
    obtain ⟨t, ht, hc, hl, htp, hf⟩ := @getLoop_some s [] (count + s.bufQ.length + 2) count h.toChained
      (.inl h.last) fun _ => by omega
    obtain ⟨hb, hthr, heof, hdiag⟩ := of_flags hf
    rw [if_neg (fun hz => hp (hbusy.mp hz)), if_neg (show s.toDataStream.data ≠ [] from hp), ht]
    refine ⟨{ t with busy := t.busy - (s.pending.take count).length }, rfl, ⟨hc.count _, hl, ?_⟩, ?_⟩
    · show t.busy - (s.pending.take count).length = t.pending.length
      rw [htp, hb, h.busy, List.length_take, List.length_drop]
      omega
    · show DataStream.mk t.pending t.threshold t.eof t.diag = _
      rw [htp, hthr, heof, hdiag]
      rfl

theorem call_refines (h : s.Whole) (c : StreamCall) :
    ∃ t, s.call c = some ((s.toDataStream.call c).1, t) ∧ t.Whole ∧ t.toDataStream = (s.toDataStream.call c).2 := by
  cases c with
  | putData bs =>
    obtain ⟨t, ht, hw, hs⟩ := putData_refines h bs
    exact ⟨t, by rw [call, ht]; rfl, hw, hs⟩
  | putEof => exact ⟨s.putEof, rfl, ⟨⟨h.nodup, h.alloc, h.fresh, h.full⟩, h.last, h.busy⟩, rfl⟩
  | getData count =>
    obtain ⟨t, ht, hw, hs⟩ := getData_refines h count
    exact ⟨t, by rw [call, ht]; rfl, hw, hs⟩
  | setDiag diag => exact ⟨s.setDiag diag, rfl, ⟨⟨h.nodup, h.alloc, h.fresh, h.full⟩, h.last, h.busy⟩, rfl⟩
  | clean =>
    refine ⟨{ heap := fun _ => none, next := s.next, threshold := s.threshold }, ?_, .new _ _, rfl⟩
    rw [call, h.clean]
    rfl

theorem calls_refines (h : s.Whole) (cs : List StreamCall) :
    ∃ t, s.calls cs = some ((s.toDataStream.calls cs).1, t) ∧ t.Whole ∧ t.toDataStream = (s.toDataStream.calls cs).2 := by
  induction cs generalizing s with
  | nil => exact ⟨s, rfl, h, rfl⟩
  | cons c cs ih =>
    obtain ⟨u, hu, hw, hs⟩ := call_refines h c
    obtain ⟨t, ht, htw, hts⟩ := ih hw
    rw [hs] at ht hts
    exact ⟨t, by rw [calls, hu, Option.bind_some, ht]; rfl, htw, hts⟩

end ChunkedStream

/-- Whatever is called, the chain of chunks gives the results of a queue of octets and holds what the queue
holds; no chunk is used that has been deleted, and `lastBuf` is a chunk of the stream, and the last one. -/
theorem dataStream_fifo (threshold : Nat) (cs : List StreamCall) :
    ∃ s, ({ threshold } : ChunkedStream).calls cs = some ((({ threshold } : DataStream).calls cs).1, s) ∧
      s.toDataStream = (({ threshold } : DataStream).calls cs).2 ∧
      s.busy = (({ threshold } : DataStream).calls cs).2.data.length ∧
      ∀ p, s.lastBuf = some p → (s.heap p).isSome ∧ (s.bufQ.getLast? = some p ∨ s.firstBuf = some p) := by
  obtain ⟨s, hs, hw, hd⟩ := ChunkedStream.calls_refines (ChunkedStream.Whole.new 0 threshold) cs
  refine ⟨s, hs, hd, ?_, fun p hp => ?_⟩
  · exact hw.busy.trans (congrArg (·.data.length) hd)
  · obtain ⟨init, hch⟩ := hw.last p hp
    refine ⟨(hw.alloc p).mpr (ChunkedStream.mem_chain_of_last hch), ?_⟩
    rw [ChunkedStream.chain] at hch
    rcases List.eq_nil_or_concat' s.bufQ with hq | ⟨qs, q, hq⟩
    · rw [hq, List.append_nil] at hch
      refine .inr (Option.mem_toList.mp ?_)
      rw [hch]
      exact List.mem_append_right _ List.mem_cons_self
    · rw [hq, ← List.append_assoc] at hch
      rw [hq, List.getLast?_concat, (List.append_inj' hch rfl).2 |> List.cons.inj |>.1]
      exact .inl rfl

end T38Modem
