import DsaStdexec.Lib.Lock
import Mathlib.Algebra.Ring.Nat

/-!
# The locks of the task queues

`std::atomic_flag` and `std::atomic<bool>` are words of one bit; every access of them is a step. The
loops that only execute `pause` are not modelled.
-/

namespace DsaStdexec.Queue

open DsaStdexec.Lib

/-- What the standard library says about `std::mutex`: `lock` waits until no thread has it. -/
def mutexLock : Lock where
  Word := Bool
  Spin := Unit
  init := false
  enter := ()
  attempt := fun locked _ => if locked then (true, some ()) else (true, none)
  unlock := fun _ => false

/-- `while (locked_.test_and_set()) pause();` -/
def tasSpinlock : Lock where
  Word := Bool
  Spin := Unit
  init := false
  enter := ()
  attempt := fun locked _ => (true, if locked then some () else none)
  unlock := fun _ => false

/-- Which access of the loop comes next. -/
inductive Ttas where
  | load
  | exchange
deriving DecidableEq

def ttasSpinlock : Lock where
  Word := Bool
  Spin := Ttas
  init := false
  enter := .load
  attempt := fun locked spin =>
    match spin with
    | .load => (locked, some (if locked then .load else .exchange))
    | .exchange => (true, if locked then some .load else none)
  unlock := fun _ => false

/-- `backoff` is the number of pauses after the next load that fails. -/
structure TtasBackoff where
  backoff : Nat
  next : Ttas

def maxBackoff : Nat := 1024

def ttasBackoffSpinlock : Lock where
  Word := Bool
  Spin := TtasBackoff
  init := false
  enter := ⟨1, .load⟩
  attempt := fun locked spin =>
    match spin.next with
    | .load =>
        if locked then
          (locked, some ⟨if spin.backoff < maxBackoff then spin.backoff * 2 else spin.backoff, .load⟩)
        else (locked, some ⟨spin.backoff, .exchange⟩)
    | .exchange => (true, if locked then some ⟨1, .load⟩ else none)
  unlock := fun _ => false

/-! ## What the locks have in common -/

def mutexLock_lawful : mutexLock.Lawful where
  held := id
  rank := fun _ => 0
  held_init := rfl
  held_attempt := by rintro (_ | _) _ <;> rfl
  busy := by rintro w i ⟨⟩; simp [mutexLock]
  held_unlock _ := rfl
  rank_attempt := by rintro w i j ⟨⟩ h; simp [mutexLock] at h

def tasSpinlock_lawful : tasSpinlock.Lawful where
  held := id
  rank := fun _ => 0
  held_init := rfl
  held_attempt := by rintro (_ | _) _ <;> rfl
  busy := by rintro w i ⟨⟩; simp [tasSpinlock]
  held_unlock _ := rfl
  rank_attempt := by rintro w i j ⟨⟩ h; simp [tasSpinlock] at h

/-- A load that sees the lock free is followed by the exchange. -/
def Ttas.rank : Ttas → Nat
  | .load => 1
  | .exchange => 0

def ttasSpinlock_lawful : ttasSpinlock.Lawful where
  held := id
  rank := Ttas.rank
  held_init := rfl
  held_attempt := by rintro (_ | _) (_ | _) <;> rfl
  busy := by rintro w (_ | _) ⟨⟩ <;> simp [ttasSpinlock]
  held_unlock _ := rfl
  rank_attempt := by
    rintro w (_ | _) j ⟨⟩ h
    · cases h; exact Nat.zero_lt_one
    · cases h

def ttasBackoffSpinlock_lawful : ttasBackoffSpinlock.Lawful where
  held := id
  rank := fun spin => spin.next.rank
  held_init := rfl
  held_attempt := by rintro (_ | _) ⟨b, _ | _⟩ <;> rfl
  busy := by rintro w ⟨b, _ | _⟩ ⟨⟩ <;> simp [ttasBackoffSpinlock]
  held_unlock _ := rfl
  rank_attempt := by
    rintro w ⟨b, _ | _⟩ j ⟨⟩ h
    · cases h; exact Nat.zero_lt_one
    · cases h

/-- The locks of the namespace `locks`, without the one for a single thread, which does nothing. -/
inductive LockKind where
  | mutex
  | tas
  | ttas
  | ttasBackoff

def LockKind.lock : LockKind → Lock
  | .mutex => mutexLock
  | .tas => tasSpinlock
  | .ttas => ttasSpinlock
  | .ttasBackoff => ttasBackoffSpinlock

def LockKind.lawful : (k : LockKind) → k.lock.Lawful
  | .mutex => mutexLock_lawful
  | .tas => tasSpinlock_lawful
  | .ttas => ttasSpinlock_lawful
  | .ttasBackoff => ttasBackoffSpinlock_lawful

/-- The value of `backoff`, 1 where the lock has none. -/
def LockKind.backoff : (k : LockKind) → k.lock.Spin → Nat
  | .mutex, _ => 1
  | .tas, _ => 1
  | .ttas, _ => 1
  | .ttasBackoff, spin => spin.backoff

/-- A thread that is alone needs at most one access that fails. -/
theorem LockKind.rank_le (k : LockKind) (spin : k.lock.Spin) : k.lawful.rank spin ≤ 1 := by
  cases k with
  | mutex => exact Nat.zero_le _
  | tas => exact Nat.zero_le _
  | ttas => rcases spin with _ | _ <;> decide
  | ttasBackoff => rcases spin with ⟨_, _ | _⟩ <;> simp [LockKind.lawful, ttasBackoffSpinlock_lawful, Ttas.rank]

/-- `backoff` doubles up to 1024, which it meets exactly. -/
def BackoffOk (n : Nat) : Prop := ∃ k ≤ 10, n = 2 ^ k

theorem backoffOk_one : BackoffOk 1 := ⟨0, by omega, rfl⟩

theorem BackoffOk.double {n : Nat} (h : BackoffOk n) : BackoffOk (if n < maxBackoff then n * 2 else n) := by
  split
  · obtain ⟨k, -, rfl⟩ := h
    have hk : k < 10 := (Nat.pow_lt_pow_iff_right (a := 2) (by omega)).mp (by simpa [maxBackoff] using ‹_›)
    exact ⟨k + 1, hk, (Nat.pow_succ 2 k).symm⟩
  · exact h

theorem LockKind.backoff_attempt (k : LockKind) (w : k.lock.Word) (i j : k.lock.Spin)
    (hi : BackoffOk (k.backoff i)) (h : (k.lock.attempt w i).2 = some j) : BackoffOk (k.backoff j) := by
  cases k with
  | mutex => exact backoffOk_one
  | tas => exact backoffOk_one
  | ttas => exact backoffOk_one
  | ttasBackoff =>
      obtain ⟨b, _ | _⟩ := i <;> rcases w with _ | _ <;>
        simp only [LockKind.lock, ttasBackoffSpinlock, Bool.false_eq_true, ↓reduceIte] at h <;> cases h
      · exact hi
      · exact hi.double
      · exact backoffOk_one

theorem LockKind.backoff_enter (k : LockKind) : BackoffOk (k.backoff k.lock.enter) := by
  cases k <;> exact backoffOk_one

end DsaStdexec.Queue
