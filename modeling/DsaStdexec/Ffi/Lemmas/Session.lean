import DsaStdexec.Ffi.Session
import DsaStdexec.Lib.Peeling

/-!
# The ranges of a `memmove`

Every page fault that the classifier lets through takes a cut off the range of its descriptor.
-/

namespace DsaStdexec.Ffi

open DsaStdexec.Lib DsaStdexec.Operation

variable {config : MemmoveValidationConfig} {request : MemmoveRequest} {place : Placement}
  {snapshot : CompletionSnapshot} {retries : BitVec 32}

/-! ## Completions -/

/-- The part of a range that a partial completion reports. -/
def CompletionSnapshot.cut (s : CompletionSnapshot) : Cut :=
  if s.result = 0 then .front s.bytesCompleted.toNat else .back s.bytesCompleted.toNat

theorem CompletionSnapshot.cut_size (s : CompletionSnapshot) : s.cut.size = s.bytesCompleted.toNat := by
  unfold cut
  split <;> rfl

/-- A page fault that can be resumed, for a descriptor with `remaining` bytes. -/
structure CompletionSnapshot.Resumable (s : CompletionSnapshot) (remaining : Nat) : Prop where
  status : s.status = compPageFaultNobof
  faultAddr : s.faultAddr ≠ 0
  result : s.result ≤ 1
  bytesCompleted : s.bytesCompleted.toNat ≤ remaining

theorem classify_retry {remaining : Nat} {retry : MemmoveRetry}
    (h : classifyMemmoveCompletion config remaining snapshot retries = .ok (.retry retry)) :
    snapshot.Resumable remaining ∧ retries < config.maxPageFaultRetries ∧
      retry = ⟨if snapshot.result = 0 then snapshot.bytesCompleted.toNat else 0,
        if snapshot.result = 0 then snapshot.bytesCompleted.toNat else 0,
        remaining - snapshot.bytesCompleted.toNat⟩ := by
  unfold classifyMemmoveCompletion at h
  split at h
  · cases h
  · split at h
    · cases h
    · split at h
      · rename_i hstatus
        simp only at h
        split at h
        · cases h
        · rename_i haddr
          split at h
          · cases h
          · rename_i hresult
            split at h
            · cases h
            · rename_i hbytes
              split at h
              · cases h
              · rename_i hmax
                cases h
                refine ⟨⟨hstatus, haddr, ?_, Nat.le_of_not_lt hbytes⟩, ?_, rfl⟩
                · exact BitVec.not_lt.mp hresult
                · exact BitVec.not_le.mp hmax
      · cases h

theorem resume_resubmit {state state' : PendingMemmove} {retries' : BitVec 32}
    (h : resume config request state retries snapshot = .resubmit state' retries') :
    snapshot.Resumable state.remaining.toNat ∧ retries < config.maxPageFaultRetries ∧
      retries' = retries + 1 ∧ state' = state.applyRetry
        ⟨if snapshot.result = 0 then snapshot.bytesCompleted.toNat else 0,
          if snapshot.result = 0 then snapshot.bytesCompleted.toNat else 0,
          state.remaining.toNat - snapshot.bytesCompleted.toNat⟩ := by
  unfold resume at h
  split at h
  · cases h
  · cases h
  · rename_i retry hc
    obtain ⟨hres, hlt, rfl⟩ := classify_retry hc
    cases h
    exact ⟨hres, hlt, rfl, rfl⟩

def stateAt (place : Placement) (r : Nat × Nat) : PendingMemmove :=
  ⟨place.src + BitVec.ofNat 64 r.1, place.dst + BitVec.ofNat 64 r.1, BitVec.ofNat 32 r.2⟩

/-- The descriptor that moves the range `r` of the buffers. -/
def descriptorAt (place : Placement) (r : Nat × Nat) : HwDesc :=
  (stateAt place r).fillDescriptor place.comp

/-- What the loop does from a descriptor for the range `r` on, if the replies take `cuts` off it. -/
structure Walk (config : MemmoveValidationConfig) (place : Placement) (r : Nat × Nat)
    (retries : BitVec 32) (replies : List Reply) (out : Outcome) (cuts : List Cut) : Prop where
  submitted : out.submitted = (Cut.ranges r cuts).map (descriptorAt place)
  fits : Cut.Fits r cuts
  budget : cuts.length + retries.toNat ≤ config.maxPageFaultRetries.toNat
  faults : ∀ (i : Nat) (c : Cut), cuts[i]? = some c → ∃ reply : Reply, replies[i]? = some reply ∧
    reply.snapshot.status = compPageFaultNobof ∧ reply.snapshot.result ≤ 1 ∧ c = reply.snapshot.cut
  moved : ∀ report, out.result = some (.ok report) → ∃ reply : Reply,
    replies[cuts.length]? = some reply ∧ reply.snapshot.status = compSuccess
  waiting : out.result = none → replies.length = cuts.length
  resumed : ∀ (i : Nat) (q : Nat × Nat) (reply : Reply), (Cut.ranges r cuts)[i]? = some q →
    replies[i]? = some reply → reply.snapshot.Resumable q.2 →
    retries.toNat + i < config.maxPageFaultRetries.toNat → i < cuts.length
  succeeded : ∀ (i : Nat) (q : Nat × Nat) (reply : Reply), (Cut.ranges r cuts)[i]? = some q →
    replies[i]? = some reply → reply.snapshot.status = compSuccess → ∃ report, out.result = some (.ok report)

theorem succ_retries (hlt : retries < config.maxPageFaultRetries) :
    (retries + 1).toNat = retries.toNat + 1 := by
  have hlt' : retries.toNat < config.maxPageFaultRetries.toNat := hlt
  have := config.maxPageFaultRetries.isLt
  rw [BitVec.toNat_add, show (1 : BitVec 32).toNat = 1 from rfl]
  exact Nat.mod_eq_of_lt (by omega)

/-- A fault that is resumed comes before what the loop does with the rest of the range. -/
theorem Walk.cons {r : Nat × Nat} {reply : Reply} {replies : List Reply} {out : Outcome} {cuts : List Cut}
    (hresumable : reply.snapshot.Resumable r.2) (hlt : retries < config.maxPageFaultRetries)
    (hw : Walk config place (reply.snapshot.cut.rest r) (retries + 1) replies out cuts) :
    Walk config place r retries (reply :: replies)
      { out with submitted := descriptorAt place r :: out.submitted } (reply.snapshot.cut :: cuts) := by
  have hsize := hresumable.bytesCompleted
  rw [← CompletionSnapshot.cut_size] at hsize
  have hnext := succ_retries hlt
  refine ⟨?_, ⟨hsize, hw.fits⟩, ?_, ?_, hw.moved, ?_, ?_, ?_⟩
  · rw [Cut.ranges, List.map_cons]
    exact congrArg _ hw.submitted
  · have := hw.budget
    rw [hnext] at this
    rw [List.length_cons]
    omega
  · intro i c hi
    cases i with
    | zero => cases hi; exact ⟨reply, rfl, hresumable.status, hresumable.result, rfl⟩
    | succ i => exact hw.faults i c hi
  · intro hnone
    rw [List.length_cons, List.length_cons, hw.waiting hnone]
  · intro i q reply' hq hreply hresumable' hmore
    cases i with
    | zero => exact Nat.succ_pos _
    | succ i =>
        rw [List.length_cons]
        exact Nat.succ_lt_succ (hw.resumed i q reply' hq hreply hresumable' (by omega))
  · intro i q reply' hq hreply hstatus
    cases i with
    | zero =>
        cases hreply
        rw [hresumable.status] at hstatus
        exact absurd hstatus (by decide)
    | succ i => exact hw.succeeded i q reply' hq hreply hstatus

/-- What the device reports to have moved of the range `r`. -/
def CompletionSnapshot.reported (s : CompletionSnapshot) (r : Nat × Nat) : Nat × Nat :=
  if s.status = compSuccess then r else s.cut.taken r

theorem length_memmoveLoop (replies : List Reply) : ∀ (state : PendingMemmove) (retries : BitVec 32)
    (dst : List UInt8), (memmoveLoop config request place state retries dst replies).dst.length =
      dst.length := by
  induction replies with
  | nil => intro state retries dst; rfl
  | cons reply replies ih =>
      intro state retries dst
      rw [memmoveLoop]
      simp only
      split
      · simp [deliver]
      · rw [ih]
        simp [deliver]

/-- A call needs one reply for every retry that is left and one more. -/
theorem memmoveLoop_returns (replies : List Reply) : ∀ (state : PendingMemmove)
    (retries : BitVec 32) (dst : List UInt8),
    config.maxPageFaultRetries.toNat - retries.toNat < replies.length →
    (memmoveLoop config request place state retries dst replies).result.isSome := by
  induction replies with
  | nil =>
      intro state retries dst h
      exact absurd h (Nat.not_lt_zero _)
  | cons reply replies ih =>
      intro state retries dst h
      rw [memmoveLoop]
      simp only
      split
      · rfl
      · rename_i state' retries' hres
        obtain ⟨-, hlt, rfl, -⟩ := resume_resubmit hres
        apply ih
        have hone : (1 : BitVec 32).toNat = 1 := rfl
        have hmax := config.maxPageFaultRetries.isLt
        rw [BitVec.lt_def] at hlt
        rw [BitVec.toNat_add, hone, Nat.mod_eq_of_lt (by omega)]
        simp only [List.length_cons] at h
        omega

theorem DsaSession.memmove_returns (s : DsaSession) (place : Placement) (dst src : List UInt8) (replies : List Reply)
    (h : s.config.maxPageFaultRetries.toNat < replies.length) :
    (s.memmove place dst src replies).result.isSome := by
  unfold DsaSession.memmove
  split
  · rfl
  · rename_i request _
    have hsome : (s.memmoveInner request place dst replies).result.isSome :=
      memmoveLoop_returns replies _ _ _ (by simpa using h)
    simp only
    split
    · rename_i hnone
      rw [hnone] at hsome
      cases hsome
    · rfl
    · rfl

theorem eq_of_mismatch {dst src : List UInt8} (h : DsaSession.mismatch dst src = none)
    (hlen : dst.length = src.length) : dst = src := by
  refine List.ext_getElem hlen fun i h1 h2 => ?_
  have hz : (dst.zip src)[i]? = some (dst[i], src[i]) := by
    rw [List.getElem?_zip_eq_some]
    exact ⟨List.getElem?_eq_getElem h1, List.getElem?_eq_getElem h2⟩
  have := List.findIdx?_eq_none_iff.mp h _ (List.mem_of_getElem? hz)
  simpa using this

/-- A `memmove` that returns `Ok` has copied its source, whatever the device has written. -/
theorem DsaSession.memmove_ok {s : DsaSession} {dst src : List UInt8} {replies : List Reply}
    {report : MemmoveValidationReport} (hlen : dst.length = src.length)
    (h : (s.memmove place dst src replies).result = some (.ok report)) :
    (s.memmove place dst src replies).dst = src := by
  unfold DsaSession.memmove at h ⊢
  split at h
  · cases h
  · rename_i request hreq
    simp only at h ⊢
    split at h
    · rename_i hnone
      rw [hnone] at h
      cases h
    · cases h
    · rename_i report' hok
      simp only [Option.some.injEq, DsaSession.verify] at h
      split at h
      · cases h
      · rename_i hm
        exact eq_of_mismatch hm ((length_memmoveLoop replies _ _ _).trans hlen)

end DsaStdexec.Ffi
