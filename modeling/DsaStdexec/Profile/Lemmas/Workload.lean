import DsaStdexec.Profile.Workload
import Mathlib.Data.Nat.Digits.Defs

/-!
# The sizes of the messages of a workload

Every field of a message has a length that does not depend on the seed, except for `tenant_id`, which
takes one byte or two.
-/

namespace DsaStdexec.Profile

open DsaStdexec.Lib.Wire

variable {schema : Schema} {rng : StdRng}

/-! ## Strings and numbers -/

theorem le_length_extendLoop {chunk : Bytes} (hchunk : chunk ≠ []) {len : Nat} (fuel : Nat) :
    ∀ output : Bytes, len ≤ output.length + fuel → len ≤ (extendLoop chunk len fuel output).length := by
  induction fuel with
  | zero => exact fun output h => h
  | succ fuel ih =>
      intro output h
      rw [extendLoop]
      split
      · apply ih
        have := List.length_pos_iff.mpr hchunk
        rw [List.length_append]
        omega
      · exact Nat.le_of_not_lt ‹_›

theorem length_extendTo {chunk : Bytes} (hchunk : chunk ≠ []) (len : Nat) :
    (extendTo chunk len).length = len := by
  rw [extendTo, List.length_take]
  exact Nat.min_eq_left (le_length_extendLoop hchunk len [] (Nat.le_add_left _ _))

@[simp] theorem length_fixedString (seed : Bytes) (len : Nat) : (fixedString seed len).length = len :=
  length_extendTo (List.append_ne_nil_of_right_ne_nil _ (by decide)) len

@[simp] theorem length_seededBytes (seed : UInt64) (len : Nat) :
    (seededBytes rng seed len).length = len := rng.length_fill _ _

theorem length_padded {base width n : Nat} (hw : 0 < width) (hn : n < base ^ width) :
    (padded base width n).length = width := by
  have hle : (digits base n).length ≤ width := by
    rw [digits, List.length_map]
    exact Nat.toDigits_length base n width hw hn
  rw [padded, List.length_append, List.length_replicate, Nat.sub_add_cancel hle]

/-- A seed that is reduced and shifted without a wrap-around. -/
theorem toNat_mod_add (x m k : UInt64) (hm : 0 < m.toNat) (h : m.toNat + k.toNat ≤ 2 ^ 64) :
    (x % m + k).toNat = x.toNat % m.toNat + k.toNat := by
  have hlt := Nat.mod_lt x.toNat hm
  rw [UInt64.toNat_add, UInt64.toNat_mod, Nat.mod_eq_of_lt (by omega)]

theorem toNat_mod_add_lt (x m k : UInt64) (hm : 0 < m.toNat) (h : m.toNat + k.toNat ≤ 128) :
    (x % m + k).toNat < 128 := by
  have hlt := Nat.mod_lt x.toNat hm
  rw [toNat_mod_add x m k hm (h.trans (by decide))]
  omega

theorem length_uint_mod_add (field : Nat) (x m k : UInt64) (hm : 0 < m.toNat) (hk : 0 < k.toNat)
    (h : m.toNat + k.toNat ≤ 128) :
    (uint field (x % m + k).toNat).length = (key field wireVarint).length + 1 := by
  rw [length_uint, length_varint_small (toNat_mod_add_lt x m k hm h)]
  rw [toNat_mod_add x m k hm (h.trans (by decide))]
  omega

/-- A packed field of reduced seeds. -/
theorem length_packed_mod_add (field n : Nat) (hn : n ≠ 0) (x : Nat → UInt64) (m k : UInt64)
    (hm : 0 < m.toNat) (h : m.toNat + k.toNat ≤ 128) :
    (packed field (((List.range n).map fun i => x i % m + k).map (·.toNat))).length =
      lenSize field n := by
  rw [length_packed]
  · simp
  · simpa using hn
  · simp only [List.mem_map]
    rintro _ ⟨_, ⟨i, -, rfl⟩, rfl⟩
    exact toNat_mod_add_lt (x i) m k hm h

/-- A repeated field with `n` values of one length. -/
theorem length_repeated_range (field n len : Nat) (x : Nat → Bytes) (h : ∀ i, (x i).length = len) :
    (repeated field ((List.range n).map x)).length = n * lenSize field len := by
  rw [length_repeated (n := len), List.length_map, List.length_range]
  simp only [List.mem_map]
  rintro _ ⟨i, -, rfl⟩
  exact h i

/-- A repeated field with `n` messages whose encodings have one length. -/
theorem length_repeated_encode {M : Type*} (field n len : Nat) (x : Nat → M) (enc : M → Bytes)
    (h : ∀ i, (enc (x i)).length = len) :
    (repeated field (((List.range n).map x).map enc)).length = n * lenSize field len := by
  rw [List.map_map]
  exact length_repeated_range field n len _ h

/-! ## Sizes -/

namespace Schema

variable (schema : Schema)

def smallSize : Nat :=
  let f := schema.small
  (key f.id wireVarint).length + 1 + lenSize f.service 8 + lenSize f.method 10 + lenSize f.flags 4 +
    lenSize f.token 16

def leafSize : Nat :=
  let f := schema.stringHeavy
  lenSize f.leafName 18 + lenSize f.leafValue 40 + 3 * lenSize f.leafSamples 26

def stringHeavySize : Nat :=
  let f := schema.stringHeavy
  (key f.id wireVarint).length + 1 + 6 * lenSize f.labels 28 + 4 * lenSize f.paths 36 +
    lenSize f.counters 10 + 4 * lenSize f.leaves schema.leafSize + lenSize f.note 52

def entrySize : Nat :=
  let f := schema.responseHeavy
  lenSize f.entryKey 16 + lenSize f.entryValue 48 + 5 * lenSize f.entryTags 18 +
    lenSize f.entrySamples 10 + lenSize f.entryDigest 24

def restSize : Nat :=
  let f := schema.responseHeavy
  lenSize f.traceId 32 + 6 * lenSize f.regions 20 + 12 * lenSize f.entries schema.entrySize +
    10 * lenSize f.digests 20 + lenSize f.histogram 32 + lenSize f.summary 96

/-- The size of a message with a `tenant_id` of `width` bytes. -/
def responseHeavySize (width : Nat) : Nat :=
  (key schema.responseHeavy.tenantId wireVarint).length + width + schema.restSize

end Schema

theorem length_encode_fleetSmall (seed : UInt64) :
    ((fleetSmall rng seed).encode schema).length = schema.smallSize := by
  have hdigits : (padded 10 4 (seed % 10000).toNat).length = 4 := by
    refine length_padded (by decide) ?_
    rw [UInt64.toNat_mod]
    exact Nat.mod_lt _ (by decide)
  have hservice : (ascii "svc-" ++ padded 10 4 (seed % 10000).toNat).length = 8 := by
    rw [List.length_append, hdigits]
    rfl
  have hmethod : (ascii "unary-" ++ padded 10 4 (seed % 10000).toNat).length = 10 := by
    rw [List.length_append, hdigits]
    rfl
  have hflags : (packed schema.small.flags
      (([1, 0, 1, (seed % 3).toUInt32] : List UInt32).map (·.toNat))).length =
        lenSize schema.small.flags 4 := by
    have hlast : (seed % 3).toUInt32.toNat < 128 := by
      rw [UInt64.toNat_toUInt32, UInt64.toNat_mod]
      exact (Nat.mod_le _ _).trans_lt ((Nat.mod_lt _ (by decide)).trans (by decide))
    rw [length_packed (by simp)]
    · rfl
    · simpa using hlast
  simp only [FleetSmallShape.encode, fleetSmall, Schema.smallSize, List.length_append, hflags,
    length_bytes hservice (by decide), length_bytes hmethod (by decide),
    length_bytes (length_seededBytes seed 16) (by decide),
    length_uint_mod_add schema.small.id seed 32 1 (by decide) (by decide) (by decide)]

theorem length_encode_leaf (seed : UInt64) (idx : Nat) :
    ((fleetStringLeaf seed idx).encode schema).length = schema.leafSize := by
  simp only [FleetStringLeaf.encode, fleetStringLeaf, Schema.leafSize, List.length_append,
    length_bytes (length_fixedString _ _) (Nat.succ_ne_zero _)]
  rw [length_repeated_range _ 3 26 _ fun _ => length_fixedString _ _]

theorem length_encode_fleetStringHeavy (seed : UInt64) :
    ((fleetStringHeavy seed).encode schema).length = schema.stringHeavySize := by
  have hleaves := length_repeated_encode schema.stringHeavy.leaves 4 schema.leafSize
    (fleetStringLeaf seed) (·.encode schema) (length_encode_leaf seed)
  have hcounters := length_packed_mod_add schema.stringHeavy.counters 10 (by decide)
    (fun idx => seed + UInt64.ofNat idx) 64 1 (by decide) (by decide)
  simp only [FleetStringHeavyShape.encode, fleetStringHeavy, Schema.stringHeavySize, List.length_append,
    hleaves, hcounters, length_bytes (length_fixedString _ _) (Nat.succ_ne_zero _),
    length_uint_mod_add schema.stringHeavy.id seed 32 10 (by decide) (by decide) (by decide)]
  rw [length_repeated_range _ 6 28 _ fun _ => length_fixedString _ _,
    length_repeated_range _ 4 36 _ fun _ => length_fixedString _ _]

theorem length_encode_entry (seed : UInt64) (idx : Nat) :
    ((fleetResponseEntry rng seed idx).encode schema).length = schema.entrySize := by
  have hsamples := length_packed_mod_add schema.responseHeavy.entrySamples 10 (by decide)
    (fun sample => seed + UInt64.ofNat idx * 10 + UInt64.ofNat sample) 96 1 (by decide) (by decide)
  simp only [FleetResponseEntry.encode, fleetResponseEntry, Schema.entrySize, List.length_append, hsamples,
    length_bytes (length_fixedString _ _) (Nat.succ_ne_zero _),
    length_bytes (length_seededBytes _ _) (Nat.succ_ne_zero _)]
  rw [length_repeated_range _ 5 18 _ fun _ => length_fixedString _ _]

theorem length_encodeRest (seed : UInt64) :
    ((fleetResponseHeavy rng seed).encodeRest schema).length = schema.restSize := by
  have hentries := length_repeated_encode schema.responseHeavy.entries 12 schema.entrySize
    (fleetResponseEntry rng seed) (·.encode schema) (length_encode_entry seed)
  have hhistogram := length_packed_mod_add schema.responseHeavy.histogram 32 (by decide)
    (fun idx => seed + UInt64.ofNat idx) 96 1 (by decide) (by decide)
  simp only [FleetResponseHeavyShape.encodeRest, fleetResponseHeavy, Schema.restSize, List.length_append,
    hentries, hhistogram, length_bytes (length_fixedString _ _) (Nat.succ_ne_zero _)]
  rw [length_repeated_range _ 6 20 _ fun _ => length_fixedString _ _,
    length_repeated_range _ 10 20 _ fun _ => length_seededBytes _ _]

/-- The bytes of `tenant_id` for a seed. -/
def tenantWidth (seed : UInt64) : Nat := if seed % 64 < 28 then 1 else 2

theorem length_tenant (field : Nat) (seed : UInt64) :
    (uint field (seed % 64 + 100).toNat).length =
      (key field wireVarint).length + tenantWidth seed := by
  have htoNat := toNat_mod_add seed 64 100 (by decide) (by decide)
  have hlt := Nat.mod_lt seed.toNat (show 0 < 64 by decide)
  have h64 : (64 : UInt64).toNat = 64 := rfl
  have h100 : (100 : UInt64).toNat = 100 := rfl
  rw [h64, h100] at htoNat
  rw [htoNat, length_uint (by omega), tenantWidth]
  have hiff : seed % 64 < 28 ↔ seed.toNat % 64 < 28 := by
    rw [UInt64.lt_iff_toNat_lt, UInt64.toNat_mod]
    rfl
  split
  · rename_i hsmall
    have := hiff.mp hsmall
    rw [length_varint_small (by omega)]
  · rename_i hlarge
    have := Nat.le_of_not_lt (mt hiff.mpr hlarge)
    rw [length_varint_two (by omega) (by omega)]

theorem length_encode_fleetResponseHeavy (seed : UInt64) :
    ((fleetResponseHeavy rng seed).encode schema).length =
      schema.responseHeavySize (tenantWidth seed) := by
  rw [FleetResponseHeavyShape.encode, List.length_append, length_encodeRest]
  exact congrArg (· + schema.restSize) (length_tenant _ seed)

theorem tenantWidth_eq_iff {seed seed' : UInt64} :
    tenantWidth seed = tenantWidth seed' ↔ (seed % 64 < 28 ↔ seed' % 64 < 28) := by
  unfold tenantWidth
  split <;> split <;> simp [*]

/-- Two messages of a shape have the same size, unless it is `FleetResponseHeavy` and only one of the
seeds is below 28 modulo 64. -/
theorem length_buildProtoMessage_eq_iff {shape : ProtoShape} {seed seed' : UInt64} :
    ((buildProtoMessage rng shape seed).encode schema).length =
        ((buildProtoMessage rng shape seed').encode schema).length ↔
      (shape = .fleetResponseHeavy → (seed % 64 < 28 ↔ seed' % 64 < 28)) := by
  cases shape with
  | fleetSmall =>
      simp only [buildProtoMessage, CompactProfileShape.encode, length_lenDelimited,
        length_encode_fleetSmall, reduceCtorEq, false_imp_iff]
  | fleetStringHeavy =>
      simp only [buildProtoMessage, CompactProfileShape.encode, length_lenDelimited,
        length_encode_fleetStringHeavy, reduceCtorEq, false_imp_iff]
  | fleetResponseHeavy =>
      simp only [buildProtoMessage, CompactProfileShape.encode, length_lenDelimited,
        length_encode_fleetResponseHeavy, true_imp_iff, lenSize_inj, Schema.responseHeavySize,
        Nat.add_right_cancel_iff, Nat.add_left_cancel_iff, tenantWidth_eq_iff]

/-! ## Replies -/

theorem kind_eq_iff {a b : ShapeKind} : schema.kind a = schema.kind b ↔ a = b :=
  ⟨schema.kind_injective a b, congrArg _⟩

theorem tryFrom_kind (k : ShapeKind) : ShapeKind.tryFrom schema (schema.kind k) = some k := by
  cases k <;> simp [ShapeKind.tryFrom, kind_eq_iff]

theorem protoShapeFromWire_toWire (shape : ProtoShape) :
    protoShapeFromWire schema (shape.toWire schema) = some shape := by
  rw [protoShapeFromWire, ProtoShape.toWire, tryFrom_kind]
  cases shape <;> rfl

theorem protoShapeFromMessage_build (shape : ProtoShape) (seed : UInt64) :
    protoShapeFromMessage (buildProtoMessage rng shape seed) = some shape := by
  cases shape <;> rfl

/-- The server answers with messages of the seeds from 0 to 3. -/
theorem pick_new (shape : ProtoShape) (index : UInt64) :
    (ProtoPools.new rng).pick shape index =
      buildProtoMessage rng shape (UInt64.ofNat (index.toNat % requestPoolLen)) := by
  cases shape <;> simp [ProtoPools.pick, ProtoPools.pool, ProtoPools.new, MessagePool.new]

theorem serverSeed_lt (index : UInt64) :
    UInt64.ofNat (index.toNat % requestPoolLen) % 64 < 28 := by
  have hlt := Nat.mod_lt index.toNat (show 0 < requestPoolLen by decide)
  generalize index.toNat % requestPoolLen = k at hlt
  have hk : k = 0 ∨ k = 1 ∨ k = 2 ∨ k = 3 := by
    unfold requestPoolLen at hlt
    omega
  rcases hk with rfl | rfl | rfl | rfl <;> decide

theorem eq_of_getElem?_map_range {α : Type*} {n k : Nat} {f : Nat → α} {x : α}
    (h : ((List.range n).map f)[k]? = some x) : x = f k := by
  rw [List.getElem?_map, Option.map_eq_some_iff] at h
  obtain ⟨j, hj, rfl⟩ := h
  obtain ⟨hlt, hj⟩ := List.getElem?_eq_some_iff.mp hj
  rw [List.getElem_range] at hj
  rw [hj]

/-- The reply of the server is accepted. -/
def Accepted (schema : Schema) (rng : StdRng) (index : UInt64) (prepared : PreparedRequest) : Prop :=
  ∃ reply next size, unaryEcho schema (ProtoPools.new rng) index (prepared.request schema) =
    .ok (reply, next) ∧ validateResponse schema prepared reply = .ok size

theorem accepted_bytes (args : Args) (worker : UInt64) (offset : Nat) (index : UInt64) :
    Accepted schema rng index (prepareBytes schema rng args worker offset) :=
  ⟨_, _, _, rfl, rfl⟩

theorem unaryEcho_prepareProto (requestShape responseShape : ProtoShape) (worker : UInt64)
    (offset : Nat) (index : UInt64) :
    unaryEcho schema (ProtoPools.new rng) index
        ((prepareProto schema rng requestShape responseShape worker offset).request schema) =
      .ok (⟨some (.protoPayload (buildProtoMessage rng responseShape
        (UInt64.ofNat (index.toNat % requestPoolLen))))⟩, index + 1) := by
  rw [← pick_new]
  simp only [unaryEcho, PreparedRequest.request, prepareProto, protoShapeFromMessage_build, Option.get_some,
    protoShapeFromWire_toWire, Option.getD_some]

theorem length_reply_eq_iff {m m' : CompactProfileShape} :
    ((⟨some (.protoPayload m)⟩ : EchoReply).encode schema).length =
        ((⟨some (.protoPayload m')⟩ : EchoReply).encode schema).length ↔
      (m.encode schema).length = (m'.encode schema).length := by
  simp only [EchoReply.encode, length_lenDelimited, lenSize_inj]

/-- A message of the right shape is judged by its size. -/
theorem validateResponse_ok_iff {prepared : PreparedRequest} {m m' : CompactProfileShape}
    {shape : ProtoShape} (hbody : prepared.body = .proto m)
    (hshape : prepared.expectedResponseShape = some shape)
    (hm : protoShapeFromMessage m' = some shape) :
    (∃ size, validateResponse schema prepared ⟨some (.protoPayload m')⟩ = .ok size) ↔
      ((⟨some (.protoPayload m')⟩ : EchoReply).encode schema).length =
        prepared.responseSerializedSize := by
  simp only [validateResponse, hbody, hshape, hm, ne_eq, not_true_eq_false, if_false]
  by_cases hsize : ((⟨some (.protoPayload m')⟩ : EchoReply).encode schema).length =
      prepared.responseSerializedSize
  · simp [hsize]
  · simp [hsize]

theorem accepted_proto (requestShape responseShape : ProtoShape) (worker : UInt64) (offset : Nat)
    (index : UInt64) :
    Accepted schema rng index (prepareProto schema rng requestShape responseShape worker offset) ↔
      (responseShape = .fleetResponseHeavy →
        (10000 + worker * 100 + UInt64.ofNat offset) % 64 < 28) := by
  have hserver := serverSeed_lt index
  calc Accepted schema rng index (prepareProto schema rng requestShape responseShape worker offset)
      ↔ ∃ size, validateResponse schema
          (prepareProto schema rng requestShape responseShape worker offset)
          ⟨some (.protoPayload (buildProtoMessage rng responseShape
            (UInt64.ofNat (index.toNat % requestPoolLen))))⟩ = .ok size := by
        rw [Accepted, unaryEcho_prepareProto]
        constructor
        · rintro ⟨reply, next, size, hreply, hsize⟩
          cases hreply
          exact ⟨size, hsize⟩
        · rintro ⟨size, hsize⟩
          exact ⟨_, _, size, rfl, hsize⟩
    _ ↔ _ := by
        rw [validateResponse_ok_iff rfl rfl (protoShapeFromMessage_build _ _)]
        refine length_reply_eq_iff.trans (length_buildProtoMessage_eq_iff.trans ?_)
        exact imp_congr_right fun _ => ⟨fun h => h.mp hserver, fun h => iff_of_true hserver h⟩

end DsaStdexec.Profile
