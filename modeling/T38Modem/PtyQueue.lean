import Mathlib.Algebra.Ring.Nat
import T38Modem.DataStream
import T38Modem.Machine

namespace T38Modem

def maxQBuf : Nat := 1024 * 2

/-- `PBYTEArrayQ` -/
structure PBYTEArrayQ where
  bufs : List (List Byte) := []
  count : Nat := 0
  deriving DecidableEq, Repr

namespace PBYTEArrayQ

def enqueue (q : PBYTEArrayQ) (buf : List Byte) : PBYTEArrayQ :=
  { bufs := q.bufs ++ [buf], count := q.count + buf.length }

def dequeue (q : PBYTEArrayQ) : Option (List Byte) × PBYTEArrayQ :=
  match q.bufs with
  | [] => (none, q)
  | buf :: bufs => (some buf, { bufs, count := q.count - buf.length })

/-- `Clean`, which dequeues as long as there is something. -/
def clean (q : PBYTEArrayQ) : PBYTEArrayQ := q.bufs.foldl (fun q _ => q.dequeue.2) q

end PBYTEArrayQ

/-- Where the thread in `ToPtyQ` is, with what is left of its buffer. -/
inductive ToPtyPc where
  | out
  | reading (buf : List Byte)
  /-- `GetCount` has said that `busy` octets are queued. -/
  | putting (busy : Nat) (buf : List Byte)
  | notifying (buf : List Byte)
  | sleeping (buf : List Byte)
  deriving DecidableEq, Repr

def ToPtyPc.rest : ToPtyPc → List Byte
  | .out => []
  | .reading buf | .putting _ buf | .notifying buf | .sleeping buf => buf

/-- A queue between `ToPtyQ` and the thread that it notifies. -/
structure PtyQueue where
  q : PBYTEArrayQ := {}
  pc : ToPtyPc := .out
  deriving DecidableEq, Repr

inductive PtyAct where
  | toPtyQ (buf : List Byte)
  /-- A step of `ToPtyQ`, where the thread to be notified is there or not and the modem stops or not. -/
  | step (notify stop : Bool)
  | dequeue
  deriving DecidableEq, Repr

inductive PtySeen where
  | called (buf : List Byte)
  | returned
  | dequeued (buf : Option (List Byte))
  deriving DecidableEq, Repr

namespace PtyQueue

/-- A step of `ToPtyQ` up to its next one. -/
def toPtyQ (s : PtyQueue) (notify stop : Bool) : Option (PtyQueue × List PtySeen) :=
  match s.pc with
  | .out => none
  | .reading buf =>
    let busy := s.q.count
    some ({ s with pc := if busy < maxQBuf then .putting busy buf else .notifying buf }, [])
  | .putting busy buf =>
    let free := maxQBuf - busy
    let len := if buf.length > free then free else buf.length
    some ({ q := s.q.enqueue (buf.take len), pc := .notifying (buf.drop len) }, [])
  | .notifying buf =>
    if notify = false then some ({ q := s.q.clean, pc := .out }, [.returned])
    else if buf = [] then some ({ s with pc := .out }, [.returned])
    else if stop then some ({ s with pc := .out }, [.returned])
    else some ({ s with pc := .sleeping buf }, [])
  | .sleeping buf =>
    if stop then some ({ s with pc := .out }, [.returned]) else some ({ s with pc := .reading buf }, [])

def machine : Machine PtyQueue PtyAct PtySeen where
  step s
    | .toPtyQ buf =>
      if s.pc ≠ .out then none
      else if buf = [] then some (s, [.called buf, .returned])
      else some ({ s with pc := .reading buf }, [.called buf])
    | .step notify stop => s.toPtyQ notify stop
    | .dequeue => some ({ s with q := s.q.dequeue.2 }, [.dequeued s.q.dequeue.1])

/-- The thread is there and the modem does not stop. -/
def Alive (_ : PtyQueue) : PtyAct → Prop
  | .step notify stop => notify = true ∧ stop = false
  | _ => True

instance (s : PtyQueue) (a : PtyAct) : Decidable (Alive s a) :=
  match a with
  | .toPtyQ _ | .dequeue => .isTrue trivial
  | .step .. => inferInstanceAs (Decidable (_ ∧ _))

/-- What `ToPtyQ` has got, and what has been dequeued. -/
def passed (es : List PtySeen) : List Byte :=
  es.flatMap fun
    | .called buf => buf
    | _ => []

def dequeued (es : List PtySeen) : List Byte :=
  es.flatMap fun
    | .dequeued buf => buf.getD []
    | _ => []

def queued (s : PtyQueue) : List Byte := s.q.bufs.flatten

/-- The count is right, and what has been passed is dequeued, queued or still to be queued. -/
structure Counted (es : List PtySeen) (s : PtyQueue) : Prop where
  order : dequeued es ++ s.queued ++ s.pc.rest = passed es
  count : s.q.count = (s.q.bufs.map List.length).sum
  le : s.q.count ≤ maxQBuf
  busy : ∀ busy buf, s.pc = .putting busy buf → s.q.count ≤ busy ∧ busy < maxQBuf

variable {s s' : PtyQueue} {es es' : List PtySeen} {pc : ToPtyPc} {buf : List Byte}

@[simp] theorem passed_append : passed (es ++ es') = passed es ++ passed es' := List.flatMap_append

@[simp] theorem dequeued_append : dequeued (es ++ es') = dequeued es ++ dequeued es' := List.flatMap_append

/-- The thread in `ToPtyQ` goes on with the same octets. -/
theorem Counted.move (h : Counted es s) (hp : passed es' = []) (hd : dequeued es' = []) (hr : pc.rest = s.pc.rest)
    (hb : ∀ busy buf, pc = .putting busy buf → s.q.count ≤ busy ∧ busy < maxQBuf) :
    Counted (es ++ es') { s with pc } := by
  refine ⟨?_, h.count, h.le, hb⟩
  rw [dequeued_append, passed_append, hp, hd, List.append_nil, List.append_nil, hr]
  exact h.order

theorem Counted.dequeue (h : Counted es s) :
    Counted (es ++ [.dequeued s.q.dequeue.1]) { s with q := s.q.dequeue.2 } := by
  unfold PBYTEArrayQ.dequeue
  cases hq : s.q.bufs with
  | nil =>
    refine ⟨?_, h.count, h.le, h.busy⟩
    rw [dequeued_append, passed_append]
    simpa [dequeued, passed] using h.order
  | cons buf bufs =>
    have hcount := h.count
    have hle := h.le
    rw [hq, List.map_cons, List.sum_cons] at hcount
    have horder := h.order
    rw [queued, hq, List.flatten_cons] at horder
    refine ⟨?_, ?_, ?_, fun busy b hb => ?_⟩
    · rw [dequeued_append, passed_append, ← horder]
      simp [dequeued, passed, queued]
    · show s.q.count - buf.length = (bufs.map List.length).sum
      omega
    · show s.q.count - buf.length ≤ maxQBuf
      omega
    · obtain ⟨h1, h2⟩ := h.busy busy b hb
      exact ⟨Nat.le_trans (Nat.sub_le _ _) h1, h2⟩

/-- The part that is enqueued has room, for since the count was read only the other thread has changed it. -/
theorem Counted.put {busy : Nat} (h : Counted es s) (hpc : s.pc = .putting busy buf) (k : Nat) (hk : k ≤ maxQBuf - busy) :
    Counted es { q := s.q.enqueue (buf.take k), pc := .notifying (buf.drop k) } := by
  obtain ⟨hle, hlt⟩ := h.busy busy buf hpc
  have hlen : (buf.take k).length ≤ k := List.length_take_le _ _
  have horder := h.order
  rw [hpc] at horder
  refine ⟨?_, ?_, ?_, nofun⟩
  · rw [← horder]
    simp [queued, PBYTEArrayQ.enqueue, ToPtyPc.rest]
  · simp [PBYTEArrayQ.enqueue, h.count]
  · show s.q.count + (buf.take k).length ≤ maxQBuf
    omega

theorem Counted.step (h : Counted es s) (hs : s.toPtyQ true false = some (s', es')) : Counted (es ++ es') s' := by
  unfold toPtyQ at hs
  split at hs
  next => cases hs
  next buf hpc =>
    cases hs
    refine h.move rfl rfl ?_ fun busy b hb => ?_
    · rw [hpc]
      split <;> rfl
    · split at hb
      next hlt =>
        cases hb
        exact ⟨Nat.le_refl _, hlt⟩
      next => cases hb
  next busy buf hpc =>
    cases hs
    rw [List.append_nil]
    refine h.put hpc _ ?_
    split <;> omega
  next buf hpc =>
    rw [if_neg nofun] at hs
    split at hs
    next hnil =>
      cases hs
      exact h.move rfl rfl (by rw [hpc, hnil]; rfl) nofun
    next =>
      rw [if_neg nofun] at hs
      cases hs
      exact h.move rfl rfl (by rw [hpc]; rfl) nofun
  next buf hpc =>
    rw [if_neg nofun] at hs
    cases hs
    exact h.move rfl rfl (by rw [hpc]; rfl) nofun

theorem Counted.call (h : Counted es s) (hpc : s.pc = .out) (buf : List Byte) :
    Counted (es ++ [.called buf]) { s with pc := .reading buf } := by
  refine ⟨?_, h.count, h.le, nofun⟩
  have horder := h.order
  rw [hpc] at horder
  rw [dequeued_append, passed_append, ← horder]
  simp [dequeued, passed, queued, ToPtyPc.rest]

/-- The octets go through the queue in order, and the count of the queue is theirs and stays in its bound. -/
theorem toPtyQ_fifo {as : List PtyAct} (h : machine.Run Alive {} as es s) :
    dequeued es <+: passed es ∧
    (s.pc = .out → dequeued es ++ s.queued = passed es) ∧
    s.q.count = (s.q.bufs.map List.length).sum ∧ s.q.count ≤ maxQBuf := by
  have hc : Counted es s := by
    refine h.invariant (I := Counted) ⟨rfl, rfl, Nat.zero_le _, nofun⟩ fun es s a s' es' hi hok hs => ?_
    cases a with
    | toPtyQ buf =>
      obtain ⟨hpc, hs⟩ := Option.ite_none_left_eq_some.mp hs
      have hpc : s.pc = .out := not_not.mp hpc
      split at hs
      next hnil =>
        cases hs
        exact hi.move (by simp [passed, hnil]) rfl rfl hi.busy
      next =>
        cases hs
        exact hi.call hpc buf
    | step notify stop =>
      obtain ⟨rfl, rfl⟩ := hok
      exact hi.step hs
    | dequeue =>
      cases Option.some.inj hs
      exact hi.dequeue
  refine ⟨?_, fun hpc => ?_, hc.count, hc.le⟩
  · rw [← hc.order, List.append_assoc]
    exact List.prefix_append _ _
  · have horder := hc.order
    rw [hpc] at horder
    simpa [ToPtyPc.rest] using horder

/-- As many octets are enqueued as there was room for when the count was read, or all that are left. -/
theorem toPtyQ_puts {busy : Nat} (hpc : s.pc = .putting busy buf) (notify stop : Bool) :
    ∃ s', s.toPtyQ notify stop = some (s', []) ∧ s'.q.count = s.q.count + min (maxQBuf - busy) buf.length ∧
      s'.queued = s.queued ++ buf.take (maxQBuf - busy) ∧ s'.pc.rest = buf.drop (maxQBuf - busy) := by
  refine ⟨_, by rw [toPtyQ, hpc], ?_⟩
  split
  next hgt =>
    refine ⟨?_, by simp [queued, PBYTEArrayQ.enqueue], rfl⟩
    simp [PBYTEArrayQ.enqueue, List.length_take]
  next hle =>
    have hall : buf.length ≤ maxQBuf - busy := Nat.le_of_not_gt hle
    rw [List.take_of_length_le hall, List.drop_eq_nil_of_le hall, Nat.min_eq_right hall]
    simp [queued, PBYTEArrayQ.enqueue, ToPtyPc.rest]

/-- One octet more than the queue holds: it waits until the others are dequeued. -/
theorem toPtyQ_parts : ∃ s es, machine.Run Alive {}
      ([.toPtyQ (List.replicate maxQBuf 1 ++ [2])] ++ List.replicate 3 (.step true false) ++ [.dequeue] ++
        List.replicate 4 (.step true false) ++ [.dequeue]) es s ∧
    es = [.called (List.replicate maxQBuf 1 ++ [2]), .dequeued (some (List.replicate maxQBuf 1)), .returned,
      .dequeued (some [2])] ∧
    dequeued es <+: passed es ∧ (s.pc = .out → dequeued es ++ s.queued = passed es) ∧
    s.q.count = (s.q.bufs.map List.length).sum ∧ s.q.count ≤ maxQBuf := by
  obtain ⟨s, hr⟩ : ∃ s, machine.Run Alive {}
      ([.toPtyQ (List.replicate maxQBuf 1 ++ [2])] ++ List.replicate 3 (.step true false) ++ [.dequeue] ++
        List.replicate 4 (.step true false) ++ [.dequeue])
      [.called (List.replicate maxQBuf 1 ++ [2]), .dequeued (some (List.replicate maxQBuf 1)), .returned,
        .dequeued (some [2])] s := Machine.exec_run (by decide +kernel)
  exact ⟨s, _, hr, rfl, toPtyQ_fifo hr⟩

end PtyQueue

end T38Modem
