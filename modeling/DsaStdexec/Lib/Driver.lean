import DsaStdexec.Lib.Machine
import Mathlib.Algebra.BigOperators.Group.Finset.Basic
import Mathlib.Logic.Function.Basic

/-!
# Programs that drive a device

A device works on slots. A program submits a slot, and the device answers by writing a status to the record
of the slot, at any time later. The program polls a record until it is set, or looks at it once. A slot
must not be submitted again while the device works on it, and a record that nobody is going to set must not
be polled. A poll can give up before the device has answered; then the program does not know when the device
is going to write to the record.

Pre- and postconditions (`Driver.Valid`) speak about what the program can know of the slots, which is the
same before and after an answer of the device. A program that has one is safe whatever the device answers, as
long as no poll gives up, and it can end when the device stops to answer with faults.
-/

namespace DsaStdexec.Lib

/-! ## Programs -/

inductive Driver (Δ A : Type) : Type → Type 1 where
  | ret {α : Type} (a : α) : Driver Δ A α
  | submit {α : Type} (slot : Nat) (d : Δ) (k : Driver Δ A α) : Driver Δ A α
  | poll {α : Type} (slot : Nat) (k : A → Driver Δ A α) : Driver Δ A α
  | peek {α : Type} (slot : Nat) (k : A → Driver Δ A α) : Driver Δ A α
  /-- The body returns the next state of the loop, or the result with which the loop ends. -/
  | loop {α σ β : Type} (body : σ → Driver Δ A (σ ⊕ β)) (init : σ) (k : β → Driver Δ A α) : Driver Δ A α

/-- The statuses of a device: the one of a record that was submitted and is not set yet, the one of a record
before that, what `poll` makes of a status, and what it returns when it gives up, if it ever does. -/
structure Statuses (A : Type) where
  unset : A
  initial : A
  seen : A → A
  expired : Option A
  /-- Whether a status that `poll` returns is a fault. -/
  fault : A → Bool
  fault_unset : fault (seen unset) = false

inductive DriverEvent (Δ A : Type) where
  | submitted (slot : Nat) (d : Δ)
  | polled (slot : Nat) (a : A)
deriving DecidableEq

def DriverEvent.slot {Δ A : Type} : DriverEvent Δ A → Nat
  | .submitted slot _ | .polled slot _ => slot

inductive DriverError where
  | outOfBounds (slot : Nat)
  /-- The slot was submitted while the device worked on it. -/
  | overwritten (slot : Nat)
  /-- A poll waited for a record that the device did not work on. -/
  | unattended (slot : Nat)
deriving DecidableEq

structure Records (Δ A : Type) where
  size : Nat
  status : Nat → A
  /-- The slots that the device works on. -/
  busy : List Nat
  log : List (DriverEvent Δ A)
  errors : List DriverError

inductive DriverAction (A : Type) where
  | advance
  | answer (slot : Nat) (a : A)
  /-- The poll that is waiting gives up. -/
  | timeout

/-- The program goes on, or the device answers with `ok`. -/
def DriverAction.Answers {A : Type} (ok : A) : DriverAction A → Prop
  | .advance => True
  | .answer _ a => a = ok
  | .timeout => False

namespace Driver

variable {Δ A : Type} {α β γ σ : Type}

def bind : {α β : Type} → Driver Δ A α → (α → Driver Δ A β) → Driver Δ A β
  | _, _, .ret a, f => f a
  | _, _, .submit slot d k, f => .submit slot d (k.bind f)
  | _, _, .poll slot k, f => .poll slot fun a => (k a).bind f
  | _, _, .peek slot k, f => .peek slot fun a => (k a).bind f
  | _, _, .loop body init k, f => .loop body init fun b => (k b).bind f

theorem bind_ret (p : Driver Δ A α) : p.bind .ret = p := by
  induction p with
  | ret a => rfl
  | submit slot d k ih => exact congrArg _ ih
  | poll slot k ih | peek slot k ih => exact congrArg _ (funext ih)
  | loop body s k _ ih => exact congrArg _ (funext ih)

instance : Monad (Driver Δ A) where
  pure := .ret
  bind := bind

def submitSlot (slot : Nat) (d : Δ) : Driver Δ A Unit := .submit slot d (.ret ())

def pollSlot (slot : Nat) : Driver Δ A A := .poll slot .ret

def peekSlot (slot : Nat) : Driver Δ A A := .peek slot .ret

def iterate (body : σ → Driver Δ A (σ ⊕ β)) (init : σ) : Driver Δ A β := .loop body init .ret

def forEach : List Nat → (Nat → Driver Δ A Unit) → Driver Δ A Unit
  | [], _ => .ret ()
  | i :: is, f => do
      f i
      forEach is f

/-- A loop with an accumulator. -/
def foldEach (f : Nat → σ → Driver Δ A σ) : List Nat → σ → Driver Δ A σ
  | [], s => .ret s
  | i :: is, s => do
      let s ← f i s
      foldEach f is s

/-- A loop that the first error ends. -/
def tryEach {ε : Type} : List Nat → (Nat → Driver Δ A (Except ε Unit)) → Driver Δ A (Except ε Unit)
  | [], _ => .ret (.ok ())
  | i :: is, f => do
      match ← f i with
      | .ok () => tryEach is f
      | .error e => .ret (.error e)

/-- What is left of a loop after its body. -/
def again (body : σ → Driver Δ A (σ ⊕ β)) (k : β → Driver Δ A α) : σ ⊕ β → Driver Δ A α
  | .inl s => .loop body s k
  | .inr b => k b

def returned : Driver Δ A α → Option α
  | .ret a => some a
  | _ => none

end Driver

/-! ## Runs -/

section Runs

variable {Δ A : Type} [DecidableEq A] (D : Statuses A) {α : Type}

namespace Records

def new (size : Nat) : Records Δ A := ⟨size, fun _ => D.initial, [], [], []⟩

def error (r : Records Δ A) (e : DriverError) : Records Δ A := { r with errors := r.errors ++ [e] }

def submit (r : Records Δ A) (slot : Nat) (d : Δ) : Records Δ A :=
  if r.size ≤ slot then r.error (.outOfBounds slot)
  else
    { r with
      status := Function.update r.status slot D.unset
      busy := slot :: r.busy
      log := r.log ++ [.submitted slot d]
      errors := r.errors ++ if slot ∈ r.busy then [.overwritten slot] else [] }

def answer (r : Records Δ A) (slot : Nat) (a : A) : Records Δ A :=
  { r with status := Function.update r.status slot a, busy := r.busy.erase slot }

def notePoll (r : Records Δ A) (slot : Nat) (a : A) : Records Δ A :=
  { r with log := r.log ++ [.polled slot a] }

end Records

/-- The next command; a poll spins while the record is not set. -/
def Driver.step : Driver Δ A α → Records Δ A → Driver Δ A α × Records Δ A
  | .ret a, r => (.ret a, r)
  | .submit slot d k, r => (k, r.submit D slot d)
  | .poll slot k, r =>
      if r.size ≤ slot then (.poll slot k, r.error (.outOfBounds slot))
      else if r.status slot = D.unset then
        (.poll slot k, if slot ∈ r.busy then r else r.error (.unattended slot))
      else (k (D.seen (r.status slot)), r.notePoll slot (D.seen (r.status slot)))
  | .peek slot k, r =>
      if r.size ≤ slot then (.peek slot k, r.error (.outOfBounds slot)) else (k (r.status slot), r)
  | .loop body s k, r => ((body s).bind (again body k), r)

/-- A poll that has waited too long goes on without an answer, whatever the device does. -/
def Driver.timeout : Driver Δ A α → Records Δ A → Option (Driver Δ A α × Records Δ A)
  | .poll slot k, r =>
      if slot < r.size ∧ r.status slot = D.unset then D.expired.map fun a => (k a, r.notePoll slot a) else none
  | _, _ => none

def Driver.transition (s : Driver Δ A α × Records Δ A) : DriverAction A → Option (Driver Δ A α × Records Δ A)
  | .advance => if s.1.returned.isSome then none else some (s.1.step D s.2)
  | .answer slot a => if slot ∈ s.2.busy ∧ a ≠ D.unset then some (s.1, s.2.answer slot a) else none
  | .timeout => s.1.timeout D s.2

def Driver.machine (p : Driver Δ A α) (size : Nat) : Machine (Driver Δ A α × Records Δ A) (DriverAction A) :=
  ⟨(p, .new D size), transition D⟩

end Runs

/-! ## What a program knows -/

/-- A slot that the device does not work on, with the status of its record, or one that was submitted. -/
inductive Cell (A : Type) where
  | quiet (a : A)
  | pending

/-- `faults` counts the faults that the program has found, and `misses` how often it has looked at a record
that was not set yet. -/
structure View (Δ A : Type) where
  size : Nat
  cells : Nat → Cell A
  log : List (DriverEvent Δ A)
  faults : Nat
  misses : Nat

namespace View

variable {Δ A : Type} (D : Statuses A)

def new (size : Nat) : View Δ A := ⟨size, fun _ => .quiet D.initial, [], 0, 0⟩

def set (v : View Δ A) (slot : Nat) (c : Cell A) : View Δ A :=
  { v with cells := Function.update v.cells slot c }

def submit (v : View Δ A) (slot : Nat) (d : Δ) : View Δ A :=
  { v.set slot .pending with log := v.log ++ [.submitted slot d] }

/-- The statuses that a poll can find. -/
def Finds (v : View Δ A) (slot : Nat) (a : A) : Prop :=
  match v.cells slot with
  | .quiet b => a = b
  | .pending => a ≠ D.unset

/-- The program finds `a` in the record. -/
def find (v : View Δ A) (slot : Nat) (a : A) : View Δ A :=
  { v.set slot (.quiet a) with
    faults := match v.cells slot with
      | .quiet _ => v.faults
      | .pending => if D.fault (D.seen a) then v.faults + 1 else v.faults }

def poll (v : View Δ A) (slot : Nat) (a : A) : View Δ A :=
  { v.find D slot a with log := v.log ++ [.polled slot (D.seen a)] }

def miss (v : View Δ A) : View Δ A := { v with misses := v.misses + 1 }

/-- The device has answered the slot, and the program knows. -/
def Answered (v : View Δ A) (slot : Nat) : Prop := ∃ a, a ≠ D.unset ∧ v.cells slot = .quiet a

/-- The device works on nothing. -/
def Idle (v : View Δ A) : Prop := ∀ slot, v.cells slot ≠ .pending

/-- The effect of a poll that has returned `status`. -/
structure Polled (v : View Δ A) (slot : Nat) (status : A) (v' : View Δ A) : Prop where
  size : v'.size = v.size
  log : v'.log = v.log ++ [.polled slot status]
  answered : v'.Answered D slot
  others : ∀ i, i ≠ slot → v'.cells i = v.cells i
  faults : v.faults ≤ v'.faults
  fault : v.cells slot = .pending → D.fault status = true → v.faults < v'.faults

variable {D}

theorem faults_le_find {v : View Δ A} (slot : Nat) (a : A) : v.faults ≤ (v.find D slot a).faults := by
  unfold find
  cases v.cells slot with
  | quiet b => exact le_rfl
  | pending => cases D.fault (D.seen a) <;> simp

theorem Answered.ne_pending {v : View Δ A} {slot : Nat} (h : v.Answered D slot) : v.cells slot ≠ .pending := by
  obtain ⟨a, -, hc⟩ := h
  simp [hc]

theorem Answered.ne_unset {v : View Δ A} {slot : Nat} (h : v.Answered D slot) :
    v.cells slot ≠ .quiet D.unset := by
  obtain ⟨a, ha, hc⟩ := h
  simp [hc, ha]

end View

namespace Driver

variable {Δ A : Type} (D : Statuses A) (total : Prop)

/-- `Q` holds when the program ends, and every command has its precondition. For total correctness an
iteration of a loop has to lower the variant, or to find a fault, or to look at a record too early. -/
def Valid : {α : Type} → Driver Δ A α → (α → View Δ A → Prop) → View Δ A → Prop
  | _, .ret a, Q, v => Q a v
  | _, .submit slot d k, Q, v =>
      slot < v.size ∧ v.cells slot ≠ .pending ∧ k.Valid Q (v.submit slot d)
  | _, .poll slot k, Q, v =>
      slot < v.size ∧ v.cells slot ≠ .quiet D.unset ∧
        ∀ a, v.Finds D slot a → (k (D.seen a)).Valid Q (v.poll D slot a)
  | _, .peek slot k, Q, v =>
      slot < v.size ∧ (v.cells slot = .pending → (k D.unset).Valid Q v.miss) ∧
        ∀ a, v.Finds D slot a → (k a).Valid Q (v.find D slot a)
  | _, .loop body s k, Q, v =>
      ∃ (I : _ → View Δ A → Prop) (V : _ → View Δ A → Nat), I s v ∧
        ∀ s v, I s v → (body s).Valid
          (fun r v' =>
            match r with
            | .inl s' =>
                I s' v' ∧ (total → V s' v' < V s v ∨ v.faults < v'.faults ∨ v.misses < v'.misses)
            | .inr b => (k b).Valid Q v') v

variable {D total} {α β σ : Type} {p : Driver Δ A α} {Q Q' : α → View Δ A → Prop} {v : View Δ A}

theorem Valid.mono (h : p.Valid D total Q v) (hQ : ∀ a v, Q a v → Q' a v) : p.Valid D total Q' v := by
  induction p generalizing v with
  | ret a => exact hQ a v h
  | submit slot d k ih => exact ⟨h.1, h.2.1, ih h.2.2 hQ⟩
  | poll slot k ih => exact ⟨h.1, h.2.1, fun a ha => ih _ (h.2.2 a ha) hQ⟩
  | peek slot k ih => exact ⟨h.1, fun hp => ih _ (h.2.1 hp) hQ, fun a ha => ih _ (h.2.2 a ha) hQ⟩
  | loop body s k ihbody ihk =>
      obtain ⟨I, V, hI, hbody⟩ := h
      refine ⟨I, V, hI, fun s v hs => ihbody s (hbody s v hs) fun r v' hr => ?_⟩
      cases r with
      | inl s' => exact hr
      | inr b => exact ihk b hr hQ

theorem valid_bind {f : α → Driver Δ A β} {R : β → View Δ A → Prop} :
    (p >>= f).Valid D total R v ↔ p.Valid D total (fun a v => (f a).Valid D total R v) v := by
  change (p.bind f).Valid D total R v ↔ _
  induction p generalizing v with
  | ret a => exact Iff.rfl
  | submit slot d k ih => exact and_congr_right fun _ => and_congr_right fun _ => ih
  | poll slot k ih => exact and_congr_right fun _ => and_congr_right fun _ => forall₂_congr fun a _ => ih _
  | peek slot k ih =>
      exact and_congr_right fun _ => and_congr (forall_congr' fun _ => ih _) (forall₂_congr fun a _ => ih _)
  | loop body s k ihbody ihk =>
      constructor
      · rintro ⟨I, V, hI, hbody⟩
        refine ⟨I, V, hI, fun s v hs => (hbody s v hs).mono fun r v' hr => ?_⟩
        cases r with
        | inl s' => exact hr
        | inr b => exact (ihk b).mp hr
      · rintro ⟨I, V, hI, hbody⟩
        refine ⟨I, V, hI, fun s v hs => (hbody s v hs).mono fun r v' hr => ?_⟩
        cases r with
        | inl s' => exact hr
        | inr b => exact (ihk b).mpr hr

theorem Valid.returned (h : p.Valid D total Q v) {a : α} (ha : p.returned = some a) : Q a v := by
  cases p with
  | ret b =>
      cases ha
      exact h
  | _ => cases ha

theorem valid_pure {a : α} : (pure a : Driver Δ A α).Valid D total Q v ↔ Q a v := Iff.rfl

theorem valid_submitSlot {slot : Nat} {d : Δ} {R : Unit → View Δ A → Prop} :
    (submitSlot slot d).Valid D total R v ↔
      slot < v.size ∧ v.cells slot ≠ .pending ∧ R () (v.submit slot d) := Iff.rfl

theorem valid_pollSlot {slot : Nat} (hlt : slot < v.size) (hset : v.cells slot ≠ .quiet D.unset) :
    (pollSlot slot).Valid D total (v.Polled D slot) v := by
  refine ⟨hlt, hset, fun a ha => ⟨rfl, rfl, ⟨a, ?_, by simp [View.poll, View.find, View.set]⟩, fun i hi => ?_,
    View.faults_le_find slot a, fun hp hf => ?_⟩⟩
  · cases hc : v.cells slot with
    | quiet b =>
        obtain rfl : a = b := by simpa [View.Finds, hc] using ha
        exact fun e => hset (by rw [hc, e])
    | pending => simpa [View.Finds, hc] using ha
  · simp [View.poll, View.find, View.set, hi]
  · simp [View.poll, View.find, hp, hf]

theorem valid_iterate {body : σ → Driver Δ A (σ ⊕ β)} {init : σ} {R : β → View Δ A → Prop}
    (I : σ → View Δ A → Prop) (V : σ → View Δ A → Nat) (h : I init v)
    (hbody : ∀ s v, I s v → (body s).Valid D total
      (fun r v' =>
        match r with
        | .inl s' => I s' v' ∧ (total → V s' v' < V s v ∨ v.faults < v'.faults ∨ v.misses < v'.misses)
        | .inr b => R b v') v) : (iterate body init).Valid D total R v := by
  refine ⟨I, V, h, fun s v hI => (hbody s v hI).mono fun r v' hr => ?_⟩
  cases r <;> exact hr

theorem valid_forEach {f : Nat → Driver Δ A Unit} {R : Unit → View Δ A → Prop} (I : List Nat → View Δ A → Prop)
    (hf : ∀ i is v, I (i :: is) v → (f i).Valid D total (fun _ v' => I is v') v) (hR : ∀ v, I [] v → R () v)
    {is : List Nat} (h : I is v) : (forEach is f).Valid D total R v := by
  induction is generalizing v with
  | nil => exact hR v h
  | cons i is ih => exact valid_bind.mpr ((hf i is v h).mono fun _ v' hv' => ih hv')

theorem valid_foldEach {f : Nat → σ → Driver Δ A σ} {R : σ → View Δ A → Prop}
    (I : List Nat → σ → View Δ A → Prop)
    (hf : ∀ i is s v, I (i :: is) s v → (f i s).Valid D total (fun s' v' => I is s' v') v)
    (hR : ∀ s v, I [] s v → R s v) {is : List Nat} {s : σ} (h : I is s v) :
    (foldEach f is s).Valid D total R v := by
  induction is generalizing s v with
  | nil => exact hR s v h
  | cons i is ih => exact valid_bind.mpr ((hf i is s v h).mono fun s' v' hv' => ih hv')

theorem valid_tryEach {ε : Type} {f : Nat → Driver Δ A (Except ε Unit)} {R : Except ε Unit → View Δ A → Prop}
    (I : List Nat → View Δ A → Prop)
    (hf : ∀ i is v, I (i :: is) v → (f i).Valid D total
      (fun res v' => match res with
        | .ok () => I is v'
        | .error e => R (.error e) v') v)
    (hR : ∀ v, I [] v → R (.ok ()) v) {is : List Nat} (h : I is v) : (tryEach is f).Valid D total R v := by
  induction is generalizing v with
  | nil => exact hR v h
  | cons i is ih =>
      refine valid_bind.mpr ((hf i is v h).mono fun res v' hv' => ?_)
      cases res with
      | ok => exact ih hv'
      | error e => exact hv'

/-- The invariant of a loop over a range, as one about the indices that are left. -/
def Upto (n : Nat) (I : Nat → View Δ A → Prop) (is : List Nat) (v : View Δ A) : Prop :=
  ∃ i ≤ n, is = List.range' i (n - i) ∧ I i v

section Ranges

variable {n : Nat} {I : Nat → View Δ A → Prop}

theorem upto_range (h : I 0 v) : Upto n I (List.range n) v := ⟨0, Nat.zero_le n, List.range_eq_range', h⟩

theorem upto_nil (h : Upto n I [] v) : I n v := by
  obtain ⟨j, hj, his, hI⟩ := h
  have hlen := congrArg List.length his
  rw [List.length_range', List.length_nil] at hlen
  obtain rfl : j = n := by omega
  exact hI

theorem upto_cons {i : Nat} {is : List Nat} (h : Upto n I (i :: is) v) :
    i < n ∧ I i v ∧ ∀ v', I (i + 1) v' → Upto n I is v' := by
  obtain ⟨j, hj, his, hI⟩ := h
  have hlen := congrArg List.length his
  rw [List.length_range', List.length_cons] at hlen
  rw [← hlen, List.range'_succ] at his
  obtain ⟨rfl, his⟩ := List.cons.inj his
  refine ⟨by omega, hI, fun v' hI' => ⟨i + 1, by omega, ?_, hI'⟩⟩
  rw [show n - (i + 1) = is.length by omega, ← his]

theorem valid_forRange {f : Nat → Driver Δ A Unit} {R : Unit → View Δ A → Prop} (I : Nat → View Δ A → Prop)
    (hf : ∀ i v, i < n → I i v → (f i).Valid D total (fun _ v' => I (i + 1) v') v) (hR : ∀ v, I n v → R () v)
    (h : I 0 v) : (forEach (List.range n) f).Valid D total R v := by
  refine valid_forEach (Upto n I) (fun i is v hI => ?_) (fun v hI => hR v (upto_nil hI)) (upto_range h)
  obtain ⟨hi, hI, hnext⟩ := upto_cons hI
  exact (hf i v hi hI).mono fun _ v' => hnext v'

theorem valid_tryRange {ε : Type} {f : Nat → Driver Δ A (Except ε Unit)} {R : Except ε Unit → View Δ A → Prop}
    (I : Nat → View Δ A → Prop)
    (hf : ∀ i v, i < n → I i v → (f i).Valid D total
      (fun res v' => match res with
        | .ok () => I (i + 1) v'
        | .error e => R (.error e) v') v)
    (hR : ∀ v, I n v → R (.ok ()) v) (h : I 0 v) : (tryEach (List.range n) f).Valid D total R v := by
  refine valid_tryEach (Upto n I) (fun i is v hI => ?_) (fun v hI => hR v (upto_nil hI)) (upto_range h)
  obtain ⟨hi, hI, hnext⟩ := upto_cons hI
  refine (hf i v hi hI).mono fun res v' hv' => ?_
  cases res with
  | ok => exact hnext v' hv'
  | error e => exact hv'

end Ranges

end Driver

/-! ## Soundness -/

section Sound

variable {Δ A : Type} (D : Statuses A)

/-- The records are as the program knows them. -/
structure Sees (r : Records Δ A) (v : View Δ A) : Prop where
  size : r.size = v.size
  log : r.log = v.log
  errors : r.errors = []
  nodup : r.busy.Nodup
  quiet : ∀ slot a, v.cells slot = .quiet a → slot ∉ r.busy ∧ r.status slot = a
  pending : ∀ slot, v.cells slot = .pending → slot < r.size ∧ (slot ∈ r.busy ↔ r.status slot = D.unset)

variable {D} {total : Prop} {r : Records Δ A} {v : View Δ A} {α : Type} {p : Driver Δ A α}
  {Q : α → View Δ A → Prop}

namespace Sees

theorem new (size : Nat) : Sees D (Records.new D size : Records Δ A) (View.new D size) where
  size := rfl
  log := rfl
  errors := rfl
  nodup := List.nodup_nil
  quiet := by
    rintro slot a ⟨⟩
    exact ⟨List.not_mem_nil, rfl⟩
  pending := nofun

theorem busy_pending (h : Sees D r v) {slot : Nat} (hb : slot ∈ r.busy) : v.cells slot = .pending := by
  cases hc : v.cells slot with
  | quiet a => exact absurd hb (h.quiet slot a hc).1
  | pending => rfl

theorem busy_length_le (h : Sees D r v) : r.busy.length ≤ r.size := by
  have hsub : r.busy ⊆ List.range r.size := fun slot hb =>
    List.mem_range.mpr (h.pending slot (h.busy_pending hb)).1
  simpa using (h.nodup.subperm hsub).length_le

/-- An answer of the device changes nothing that the program knows. -/
theorem answer (h : Sees D r v) {slot : Nat} {a : A} (hb : slot ∈ r.busy) (ha : a ≠ D.unset) :
    Sees D (r.answer slot a) v where
  size := h.size
  log := h.log
  errors := h.errors
  nodup := h.nodup.erase slot
  quiet := by
    intro slot' b hc
    obtain ⟨hnb, hst⟩ := h.quiet slot' b hc
    have hne : slot' ≠ slot := fun e => hnb (e ▸ hb)
    exact ⟨fun hm => hnb (List.mem_of_mem_erase hm), by simpa [Records.answer, hne] using hst⟩
  pending := by
    intro slot' hc
    obtain ⟨hlt, hst⟩ := h.pending slot' hc
    refine ⟨hlt, ?_⟩
    by_cases e : slot' = slot
    · subst e
      simp [Records.answer, h.nodup.mem_erase_iff, ha]
    · simpa [Records.answer, h.nodup.mem_erase_iff, e] using hst

theorem submit (h : Sees D r v) {slot : Nat} {d : Δ} (hlt : slot < v.size) (hq : v.cells slot ≠ .pending) :
    Sees D (r.submit D slot d) (v.submit slot d) := by
  have hnb : slot ∉ r.busy := fun hb => hq (h.busy_pending hb)
  have hsize : ¬ r.size ≤ slot := by rw [h.size]; omega
  have hr : r.submit D slot d = { r with
      status := Function.update r.status slot D.unset
      busy := slot :: r.busy
      log := r.log ++ [.submitted slot d] } := by
    simp [Records.submit, hsize, hnb]
  rw [hr]
  refine ⟨h.size, by simp [View.submit, h.log], h.errors,
    List.nodup_cons.mpr ⟨hnb, h.nodup⟩, fun slot' a hc => ?_, fun slot' hc => ?_⟩
  · by_cases e : slot' = slot
    · simp [View.submit, View.set, e] at hc
    · simpa [e] using h.quiet slot' a (by simpa [View.submit, View.set, e] using hc)
  · by_cases e : slot' = slot
    · subst e
      simpa [h.size] using hlt
    · simpa [e] using h.pending slot' (by simpa [View.submit, View.set, e] using hc)

/-- What a record holds once it is set is one of the statuses that the program can find. -/
theorem finds (h : Sees D r v) {slot : Nat} (hset : r.status slot ≠ D.unset) :
    v.Finds D slot (r.status slot) := by
  unfold View.Finds
  cases hc : v.cells slot with
  | quiet a => exact (h.quiet slot a hc).2
  | pending => exact hset

theorem find (h : Sees D r v) {slot : Nat} (hset : r.status slot ≠ D.unset ∨ v.cells slot ≠ .pending) :
    Sees D r (v.find D slot (r.status slot)) where
  size := h.size
  log := h.log
  errors := h.errors
  nodup := h.nodup
  quiet := by
    intro slot' a hc
    by_cases e : slot' = slot
    · subst e
      obtain rfl : r.status slot' = a := by simpa [View.find, View.set] using hc
      cases hc' : v.cells slot' with
      | quiet b => exact ⟨(h.quiet slot' b hc').1, rfl⟩
      | pending => exact ⟨mt (h.pending slot' hc').2.mp (hset.resolve_right (not_not.mpr hc')), rfl⟩
    · exact h.quiet slot' a (by simpa [View.find, View.set, e] using hc)
  pending := by
    intro slot' hc
    by_cases e : slot' = slot
    · subst e
      simp [View.find, View.set] at hc
    · exact h.pending slot' (by simpa [View.find, View.set, e] using hc)

theorem poll (h : Sees D r v) {slot : Nat} (hset : r.status slot ≠ D.unset) :
    Sees D (r.notePoll slot (D.seen (r.status slot))) (v.poll D slot (r.status slot)) := by
  have hf := h.find (Or.inl hset)
  exact ⟨hf.size, by simp [Records.notePoll, View.poll, h.log], hf.errors, hf.nodup, hf.quiet, hf.pending⟩

/-- A record that a poll of a valid program waits for is one that the device is going to set. -/
theorem awaited (h : Sees D r v) {slot : Nat} (hq : v.cells slot ≠ .quiet D.unset)
    (hunset : r.status slot = D.unset) : slot ∈ r.busy := by
  cases hc : v.cells slot with
  | quiet a => exact absurd (by rw [hc, ← (h.quiet slot a hc).2, hunset]) hq
  | pending => exact (h.pending slot hc).2.mpr hunset

end Sees

namespace Driver

variable [DecidableEq A]

theorem Valid.step (h : p.Valid D total Q v) (hs : Sees D r v) :
    ∃ v', Sees D (p.step D r).2 v' ∧ (p.step D r).1.Valid D total Q v' := by
  cases p with
  | ret a => exact ⟨v, hs, h⟩
  | submit slot d k => exact ⟨_, hs.submit h.1 h.2.1, h.2.2⟩
  | poll slot k =>
      have hsize : ¬ r.size ≤ slot := by rw [hs.size]; exact not_le.mpr h.1
      by_cases hset : r.status slot = D.unset
      · have hbusy := hs.awaited h.2.1 hset
        exact ⟨v, by simpa [Driver.step, hsize, hset, hbusy] using hs,
          by simpa [Driver.step, hsize, hset] using h⟩
      · simp only [Driver.step, hsize, hset, if_false]
        exact ⟨_, hs.poll hset, h.2.2 _ (hs.finds hset)⟩
  | peek slot k =>
      have hsize : ¬ r.size ≤ slot := by rw [hs.size]; exact not_le.mpr h.1
      simp only [Driver.step, hsize, if_false]
      cases hc : v.cells slot with
      | quiet a =>
          have ha := (hs.quiet slot a hc).2
          refine ⟨_, hs.find (.inr (by simp [hc])), h.2.2 _ ?_⟩
          simp [View.Finds, hc, ha]
      | pending =>
          by_cases hset : r.status slot = D.unset
          · exact ⟨v.miss, ⟨hs.size, hs.log, hs.errors, hs.nodup, hs.quiet, hs.pending⟩,
              by simpa [hset] using h.2.1 hc⟩
          · exact ⟨_, hs.find (.inl hset), h.2.2 _ (hs.finds hset)⟩
  | loop body s k =>
      obtain ⟨I, V, hI, hbody⟩ := h
      refine ⟨v, hs, valid_bind.mpr ((hbody s v hI).mono fun c v' hc => ?_)⟩
      cases c with
      | inl s' => exact ⟨I, V, hc.1, hbody⟩
      | inr b => exact hc

theorem Valid.transition (h : p.Valid D total Q v) (hs : Sees D r v) {a : DriverAction A}
    {s' : Driver Δ A α × Records Δ A} (hst : Driver.transition D (p, r) a = some s')
    (ha : a = .timeout → D.expired = none) : ∃ v', Sees D s'.2 v' ∧ s'.1.Valid D total Q v' := by
  cases a with
  | advance =>
      obtain ⟨-, hst⟩ := Option.ite_none_left_eq_some.mp hst
      cases hst
      exact h.step hs
  | answer slot a =>
      obtain ⟨hg, hst⟩ := Option.ite_none_right_eq_some.mp hst
      cases hst
      exact ⟨v, hs.answer hg.1 hg.2, h⟩
  | timeout =>
      cases p with
      | poll slot k =>
          obtain ⟨-, hst⟩ := Option.ite_none_right_eq_some.mp hst
          rw [ha rfl] at hst
          cases hst
      | _ => cases hst

theorem transition_size {s s' : Driver Δ A α × Records Δ A} {a : DriverAction A}
    (hst : Driver.transition D s a = some s') : s'.2.size = s.2.size := by
  obtain ⟨p, r⟩ := s
  cases a with
  | advance =>
      obtain ⟨-, hst⟩ := Option.ite_none_left_eq_some.mp hst
      cases hst
      cases p <;> simp only [Driver.step, Records.submit] <;> split_ifs <;> rfl
  | answer slot a =>
      obtain ⟨-, hst⟩ := Option.ite_none_right_eq_some.mp hst
      cases hst
      rfl
  | timeout =>
      cases p with
      | poll slot k =>
          obtain ⟨-, hst⟩ := Option.ite_none_right_eq_some.mp hst
          obtain ⟨a, -, rfl⟩ := Option.map_eq_some_iff.mp hst
          rfl
      | _ => cases hst

theorem run_size {size : Nat} {as : List (DriverAction A)} {s : Driver Δ A α × Records Δ A}
    (hr : (p.machine D size).run as = some s) : s.2.size = size :=
  Machine.run_invariant (I := fun s => s.2.size = size) rfl
    (fun _ _ _ h hst => (transition_size hst).trans h) hr

/-- Whatever the device answers, a valid program keeps to its preconditions, and to its postcondition when it
ends, as long as no poll gives up. -/
theorem Valid.run {size : Nat} (h : p.Valid D total Q (.new D size)) {as : List (DriverAction A)}
    {s : Driver Δ A α × Records Δ A} (hr : (p.machine D size).run as = some s)
    (ha : ∀ a ∈ as, a = .timeout → D.expired = none) : ∃ v, Sees D s.2 v ∧ s.1.Valid D total Q v := by
  refine Machine.runFrom_invariant (I := fun s => ∃ v, Sees D s.2 v ∧ s.1.Valid D total Q v)
    (C := fun _ a => a = .timeout → D.expired = none) (fun s a s' hs ha hst => ?_) ⟨_, .new size, h⟩
    (Machine.meets_of_forall ha) hr
  obtain ⟨v, hs, hv⟩ := hs
  exact Valid.transition hv hs hst ha

end Driver

/-! ## Termination -/

variable (D) in
/-- Whether a fault stands in the record that the program has not found. -/
def unfound (r : Records Δ A) (v : View Δ A) (slot : Nat) : Nat :=
  match v.cells slot with
  | .quiet _ => 0
  | .pending => if D.fault (D.seen (r.status slot)) then 1 else 0

variable (D) in
/-- The faults of the device so far. -/
def faulted (r : Records Δ A) (v : View Δ A) : Nat :=
  (∑ slot ∈ Finset.range v.size, unfound D r v slot) + v.faults

theorem faulted_congr {r' : Records Δ A} {v' : View Δ A} {slot : Nat} (hlt : slot < v.size)
    (hsize : v'.size = v.size) (hne : ∀ i, i ≠ slot → unfound D r' v' i = unfound D r v i)
    (hslot : unfound D r' v' slot + v'.faults = unfound D r v slot + v.faults) :
    faulted D r' v' = faulted D r v := by
  have hmem : slot ∈ Finset.range v.size := Finset.mem_range.mpr hlt
  have hrest : ∑ i ∈ (Finset.range v.size).erase slot, unfound D r' v' i =
      ∑ i ∈ (Finset.range v.size).erase slot, unfound D r v i :=
    Finset.sum_congr rfl fun i hi => hne i (Finset.ne_of_mem_erase hi)
  simp only [faulted, hsize, ← Finset.add_sum_erase _ _ hmem, hrest]
  omega

theorem faulted_submit {slot : Nat} {d : Δ} (hlt : slot < v.size) (hsize : r.size = v.size)
    (hq : v.cells slot ≠ .pending) : faulted D (r.submit D slot d) (v.submit slot d) = faulted D r v := by
  have hr : (r.submit D slot d).status = Function.update r.status slot D.unset := by
    simp [Records.submit, hsize, not_le.mpr hlt]
  refine faulted_congr hlt rfl (fun i hi => ?_) ?_
  · simp [unfound, View.submit, View.set, hr, hi]
  · cases hc : v.cells slot with
    | quiet a => simp [unfound, View.submit, View.set, hr, hc, D.fault_unset]
    | pending => exact absurd hc hq

theorem faulted_find {slot : Nat} (hlt : slot < v.size) :
    faulted D r (v.find D slot (r.status slot)) = faulted D r v := by
  refine faulted_congr hlt rfl (fun i hi => by simp [unfound, View.find, View.set, hi]) ?_
  cases hc : v.cells slot with
  | quiet a => simp [unfound, View.find, View.set, hc]
  | pending =>
      cases hf : D.fault (D.seen (r.status slot)) <;> simp [unfound, View.find, View.set, hc, hf, Nat.add_comm]

theorem faulted_answer {slot : Nat} {a : A} (hlt : slot < v.size) (hset : r.status slot = D.unset)
    (ha : D.fault (D.seen a) = false) : faulted D (r.answer slot a) v = faulted D r v := by
  refine faulted_congr hlt rfl (fun i hi => by simp [unfound, Records.answer, hi]) ?_
  simp [unfound, Records.answer, hset, ha, D.fault_unset]

variable (D) in
/-- The device has not faulted in between, and it was never late. -/
structure Lucky (r : Records Δ A) (v : View Δ A) (r' : Records Δ A) (v' : View Δ A) : Prop where
  faults : v.faults ≤ v'.faults
  misses : v'.misses = v.misses
  faulted : faulted D r' v' = faulted D r v

theorem Lucky.refl (r : Records Δ A) (v : View Δ A) : Lucky D r v r v := ⟨le_rfl, rfl, rfl⟩

theorem Lucky.trans {r' r'' : Records Δ A} {v' v'' : View Δ A} (h : Lucky D r v r' v')
    (h' : Lucky D r' v' r'' v'') : Lucky D r v r'' v'' :=
  ⟨h.faults.trans h'.faults, h'.misses.trans h.misses, h'.faulted.trans h.faulted⟩

namespace Driver

variable [DecidableEq A] {γ : Type} {p₀ : Driver Δ A γ} {n₀ : Nat} {P : Driver Δ A γ × Records Δ A → Prop}
  {ok : A}

/-- Wherever the program ends with `Q`, with luck, it reaches `P` from there. -/
def Reaches (ok : A) (p₀ : Driver Δ A γ) (n₀ : Nat) (P : Driver Δ A γ × Records Δ A → Prop)
    (f : α → Driver Δ A γ) (D : Statuses A) (Q : α → View Δ A → Prop) (r : Records Δ A) (v : View Δ A) : Prop :=
  ∀ a r' v', Sees D r' v' → Q a v' → Lucky D r v r' v' →
    (p₀.machine D n₀).CanReachBy (·.Answers ok) P (f a, r')

theorem Reaches.lucky {f : α → Driver Δ A γ} {r' : Records Δ A} {v' : View Δ A}
    (h : Reaches ok p₀ n₀ P f D Q r v) (hl : Lucky D r v r' v') : Reaches ok p₀ n₀ P f D Q r' v' :=
  fun a r'' v'' hs'' hQ hl' => h a r'' v'' hs'' hQ (hl.trans hl')

theorem canReach_advance {q : Driver Δ A γ} (hq : q.returned = none)
    (h : (p₀.machine D n₀).CanReachBy (·.Answers ok) P (q.step D r)) :
    (p₀.machine D n₀).CanReachBy (·.Answers ok) P (q, r) :=
  .step (a := .advance) trivial (by simp [machine, Driver.transition, hq]) h

/-- The device answers a slot before the program looks there. -/
theorem canReach_answered (hok : ok ≠ D.unset) (hnf : D.fault (D.seen ok) = false) {slot : Nat}
    {q : Driver Δ A γ} (hs : Sees D r v) (hlt : slot < v.size)
    (h : ∀ r', Sees D r' v → (r'.status slot = D.unset → slot ∉ r'.busy) → Lucky D r v r' v →
      (p₀.machine D n₀).CanReachBy (·.Answers ok) P (q, r')) :
    (p₀.machine D n₀).CanReachBy (·.Answers ok) P (q, r) := by
  by_cases hw : r.status slot = D.unset ∧ slot ∈ r.busy
  · refine .step (a := .answer slot ok) rfl (if_pos ⟨hw.2, hok⟩) (h _ (hs.answer hw.2 hok) ?_ ?_)
    · simp [Records.answer, hok]
    · exact ⟨le_rfl, rfl, faulted_answer hlt hw.1 hnf⟩
  · exact h r hs (not_and.mp hw) (.refl r v)

/-- A loop starts again with fewer faults left to find, or with as many and a smaller variant. -/
theorem canReach_loop {σ β : Type} {body : σ → Driver Δ A (σ ⊕ β)} {k : β → Driver Δ A γ}
    {I : σ → View Δ A → Prop} {V : σ → View Δ A → Nat} {B : β → View Δ A → Prop} {s : σ} (ht : total)
    (hbody : ∀ s r v, I s v → Sees D r v →
      Reaches ok p₀ n₀ P (again body k) D
        (fun c v' =>
          match c with
          | .inl s' => I s' v' ∧ (total → V s' v' < V s v ∨ v.faults < v'.faults ∨ v.misses < v'.misses)
          | .inr b => B b v') r v →
      (p₀.machine D n₀).CanReachBy (·.Answers ok) P ((body s).bind (again body k), r))
    (hI : I s v) (hs : Sees D r v) (hk : Reaches ok p₀ n₀ P k D B r v) :
    (p₀.machine D n₀).CanReachBy (·.Answers ok) P (.loop body s k, r) := by
  generalize hm : faulted D r v - v.faults = m
  generalize hV : V s v = x
  induction m using Nat.strong_induction_on generalizing s v r x with
  | _ m ihm =>
    induction x using Nat.strong_induction_on generalizing s v r with
    | _ x ihx =>
      refine canReach_advance rfl (hbody s r v hI hs fun c r' v' hs' hc hl => ?_)
      cases c with
      | inr b => exact hk b r' v' hs' hc hl
      | inl s' =>
          have hfound : v'.faults ≤ faulted D r' v' := Nat.le_add_left _ _
          have hfaulted := hl.faulted
          rcases hl.faults.lt_or_eq with hlt | heq
          · exact ihm (faulted D r' v' - v'.faults) (by omega) hc.1 hs' (hk.lucky hl) rfl _ rfl
          · have hless : V s' v' < x := by
              rcases hc.2 ht with hless | hmore | hmiss
              · exact hV ▸ hless
              · exact absurd hmore heq.not_lt
              · exact absurd hmiss hl.misses.not_gt
            exact ihx _ hless hc.1 hs' (hk.lucky hl) (by omega) rfl

/-- A device that answers everything, and without a fault, brings a valid program to its end. -/
theorem Valid.canReach (hok : ok ≠ D.unset) (hnf : D.fault (D.seen ok) = false) {f : α → Driver Δ A γ}
    (ht : total) (h : p.Valid D total Q v) (hs : Sees D r v) (hf : Reaches ok p₀ n₀ P f D Q r v) :
    (p₀.machine D n₀).CanReachBy (·.Answers ok) P (p.bind f, r) := by
  induction p generalizing v r with
  | ret a => exact hf a r v hs h (.refl r v)
  | submit slot d k ih =>
      have hl : Lucky D r v (r.submit D slot d) (v.submit slot d) :=
        ⟨le_rfl, rfl, faulted_submit h.1 hs.size h.2.1⟩
      exact canReach_advance rfl (ih h.2.2 (hs.submit h.1 h.2.1) (hf.lucky hl))
  | poll slot k ih =>
      refine canReach_answered hok hnf hs h.1 fun r₁ hs₁ hset hl₁ => ?_
      have hset : r₁.status slot ≠ D.unset := fun hu => hset hu (hs₁.awaited h.2.1 hu)
      have hsize : ¬ r₁.size ≤ slot := by rw [hs₁.size]; exact not_le.mpr h.1
      refine canReach_advance rfl ?_
      simp only [Driver.bind, Driver.step, hsize, hset, if_false]
      refine ih _ (h.2.2 _ (hs₁.finds hset)) (hs₁.poll hset) (hf.lucky (hl₁.trans ?_))
      exact ⟨View.faults_le_find _ _, rfl, faulted_find (r := r₁) (v := v) h.1⟩
  | peek slot k ih =>
      refine canReach_answered hok hnf hs h.1 fun r₁ hs₁ hset hl₁ => ?_
      have hsize : ¬ r₁.size ≤ slot := by rw [hs₁.size]; exact not_le.mpr h.1
      have hfinds : v.Finds D slot (r₁.status slot) ∧
          (r₁.status slot ≠ D.unset ∨ v.cells slot ≠ .pending) := by
        cases hcell : v.cells slot with
        | quiet a => exact ⟨by simpa [View.Finds, hcell] using (hs₁.quiet slot a hcell).2, .inr nofun⟩
        | pending =>
            have hne : r₁.status slot ≠ D.unset := fun hu => hset hu ((hs₁.pending slot hcell).2.mpr hu)
            exact ⟨hs₁.finds hne, .inl hne⟩
      refine canReach_advance rfl ?_
      simp only [Driver.bind, Driver.step, hsize, if_false]
      refine ih _ (h.2.2 _ hfinds.1) (hs₁.find hfinds.2) (hf.lucky (hl₁.trans ?_))
      exact ⟨View.faults_le_find _ _, rfl, faulted_find h.1⟩
  | loop body s k ihbody ihk =>
      obtain ⟨I, V, hI, hbody⟩ := h
      exact canReach_loop ht (fun s r v hI hs hc => ihbody s (hbody s v hI) hs hc) hI hs
        fun b r' v' hs' hb hl => ihk b hb hs' (hf.lucky hl)

/-- Wherever a valid program is, a device that answers brings it to its end. -/
theorem Valid.canReturn (hok : ok ≠ D.unset) (hnf : D.fault (D.seen ok) = false) (ht : total)
    (h : p.Valid D total Q v) (hs : Sees D r v) {p₀ : Driver Δ A α} :
    (p₀.machine D n₀).CanReachBy (·.Answers ok) (fun s => s.1.returned.isSome) (p, r) := by
  rw [← bind_ret p]
  exact h.canReach hok hnf ht hs fun a r' _ _ _ _ => .here rfl

end Driver

end Sound

end DsaStdexec.Lib
