import DsaStdexec.Lib.Wire
import DsaStdexec.Profile.Codec

/-!
# Workloads

The messages that clients and servers build from a seed, and the validation of a reply. The numbers of
the fields and of the values of `ShapeKind` come from `profile.proto`, and the random bytes from
`StdRng`: both are parameters. The order of the fields of a message is the one of its struct; only the
lengths of the encodings are used.
-/

namespace DsaStdexec.Profile

open DsaStdexec.Lib.Wire

/-! ## Command line -/

inductive RpcMode where
  | unaryBytes
  | unaryProtoShape
  deriving DecidableEq, Repr

inductive PayloadKind where
  | random
  | structured
  | repeated
  deriving DecidableEq, Repr

inductive ProtoShape where
  | fleetSmall
  | fleetStringHeavy
  | fleetResponseHeavy
  deriving DecidableEq, Repr

inductive ResponseShape where
  | same
  | fleetSmall
  | fleetStringHeavy
  | fleetResponseHeavy
  deriving DecidableEq, Repr

/-- The arguments of a workload; `validate_args` asks for a shape where the mode needs one. -/
structure Args where
  rpc : RpcMode
  protoShape : Option ProtoShape
  responseShape : ResponseShape
  payloadSize : Nat
  payloadKind : PayloadKind
  valid : rpc = .unaryProtoShape → protoShape.isSome = true

def serializeProtoShape : ProtoShape → String
  | .fleetSmall => "fleet-small"
  | .fleetStringHeavy => "fleet-string-heavy"
  | .fleetResponseHeavy => "fleet-response-heavy"

def resolveResponseShape (requestShape : ProtoShape) : ResponseShape → ProtoShape
  | .same => requestShape
  | .fleetSmall => .fleetSmall
  | .fleetStringHeavy => .fleetStringHeavy
  | .fleetResponseHeavy => .fleetResponseHeavy

/-! ## Messages -/

structure FleetSmallShape where
  id : UInt64
  service : Bytes
  method : Bytes
  flags : List UInt32
  token : Bytes

structure FleetStringLeaf where
  name : Bytes
  value : Bytes
  samples : List Bytes

structure FleetStringHeavyShape where
  id : UInt64
  labels : List Bytes
  paths : List Bytes
  counters : List UInt64
  leaves : List FleetStringLeaf
  note : Bytes

structure FleetResponseEntry where
  key : Bytes
  value : Bytes
  tags : List Bytes
  samples : List UInt64
  digest : Bytes

structure FleetResponseHeavyShape where
  tenantId : UInt64
  traceId : Bytes
  regions : List Bytes
  entries : List FleetResponseEntry
  digests : List Bytes
  histogram : List UInt64
  summary : Bytes

inductive Shape where
  | fleetSmall (m : FleetSmallShape)
  | fleetStringHeavy (m : FleetStringHeavyShape)
  | fleetResponseHeavy (m : FleetResponseHeavyShape)

structure CompactProfileShape where
  shape : Option Shape

inductive ShapeKind where
  | unspecified
  | fleetSmall
  | fleetStringHeavy
  | fleetResponseHeavy
  deriving DecidableEq, Repr

inductive EchoBody where
  | payload (b : Bytes)
  | protoPayload (m : CompactProfileShape)

structure EchoRequest where
  body : Option EchoBody
  requestedResponseShape : BitVec 32

structure EchoReply where
  body : Option EchoBody

/-! ## Encoding -/

structure FleetSmallFields where
  (id service method flags token : Nat)

structure FleetStringHeavyFields where
  (id labels paths counters leaves note leafName leafValue leafSamples : Nat)

structure FleetResponseHeavyFields where
  (tenantId traceId regions entries digests histogram summary : Nat)
  (entryKey entryValue entryTags entrySamples entryDigest : Nat)

/-- What `profile.proto` declares. -/
structure Schema where
  small : FleetSmallFields
  stringHeavy : FleetStringHeavyFields
  responseHeavy : FleetResponseHeavyFields
  (shapeSmall shapeStringHeavy shapeResponseHeavy : Nat)
  (requestPayload requestProtoPayload requestedResponseShape : Nat)
  (replyPayload replyProtoPayload : Nat)
  kind : ShapeKind → BitVec 32
  kind_injective : ∀ a b, kind a = kind b → a = b

variable (schema : Schema)

def FleetSmallShape.encode (m : FleetSmallShape) : Bytes :=
  let f := schema.small
  uint f.id m.id.toNat ++ bytes f.service m.service ++ bytes f.method m.method ++
    packed f.flags (m.flags.map (·.toNat)) ++ bytes f.token m.token

def FleetStringLeaf.encode (m : FleetStringLeaf) : Bytes :=
  let f := schema.stringHeavy
  bytes f.leafName m.name ++ bytes f.leafValue m.value ++ repeated f.leafSamples m.samples

def FleetStringHeavyShape.encode (m : FleetStringHeavyShape) : Bytes :=
  let f := schema.stringHeavy
  uint f.id m.id.toNat ++ repeated f.labels m.labels ++ repeated f.paths m.paths ++
    packed f.counters (m.counters.map (·.toNat)) ++
    repeated f.leaves (m.leaves.map (·.encode schema)) ++ bytes f.note m.note

def FleetResponseEntry.encode (m : FleetResponseEntry) : Bytes :=
  let f := schema.responseHeavy
  bytes f.entryKey m.key ++ bytes f.entryValue m.value ++ repeated f.entryTags m.tags ++
    packed f.entrySamples (m.samples.map (·.toNat)) ++ bytes f.entryDigest m.digest

/-- The fields after the first one. -/
def FleetResponseHeavyShape.encodeRest (m : FleetResponseHeavyShape) : Bytes :=
  let f := schema.responseHeavy
  bytes f.traceId m.traceId ++ repeated f.regions m.regions ++
    repeated f.entries (m.entries.map (·.encode schema)) ++ repeated f.digests m.digests ++
    packed f.histogram (m.histogram.map (·.toNat)) ++ bytes f.summary m.summary

def FleetResponseHeavyShape.encode (m : FleetResponseHeavyShape) : Bytes :=
  uint schema.responseHeavy.tenantId m.tenantId.toNat ++ m.encodeRest schema

def CompactProfileShape.encode (m : CompactProfileShape) : Bytes :=
  match m.shape with
  | none => []
  | some (.fleetSmall x) => lenDelimited schema.shapeSmall (x.encode schema)
  | some (.fleetStringHeavy x) => lenDelimited schema.shapeStringHeavy (x.encode schema)
  | some (.fleetResponseHeavy x) => lenDelimited schema.shapeResponseHeavy (x.encode schema)

/-- An enumeration is written as an `int32`: a negative value takes the bits of an `int64`. -/
def EchoRequest.encode (m : EchoRequest) : Bytes :=
  (match m.body with
    | none => []
    | some (.payload b) => lenDelimited schema.requestPayload b
    | some (.protoPayload x) => lenDelimited schema.requestProtoPayload (x.encode schema)) ++
  uint schema.requestedResponseShape (m.requestedResponseShape.signExtend 64).toNat

def EchoReply.encode (m : EchoReply) : Bytes :=
  match m.body with
  | none => []
  | some (.payload b) => lenDelimited schema.replyPayload b
  | some (.protoPayload x) => lenDelimited schema.replyProtoPayload (x.encode schema)

/-! ## Building messages -/

/-- `StdRng::seed_from_u64` and `fill_bytes` on a buffer of the given length. -/
structure StdRng where
  fill : UInt64 → Nat → Bytes
  length_fill : ∀ seed len, (fill seed len).length = len

variable (rng : StdRng)

def ascii (s : String) : Bytes := s.toUTF8.data.toList

def digits (base n : Nat) : Bytes := (Nat.toDigits base n).map fun c => UInt8.ofNat c.toNat

/-- `n` with zeros in front of it up to `width`. -/
def padded (base width n : Nat) : Bytes :=
  List.replicate (width - (digits base n).length) 48 ++ digits base n

/-- The loop `while output.len() < len` that appends `chunk`. -/
def extendLoop (chunk : Bytes) (len : Nat) : Nat → Bytes → Bytes
  | 0, output => output
  | fuel + 1, output =>
      if output.length < len then extendLoop chunk len fuel (output ++ chunk) else output

/-- Every turn appends a byte at least, so `len` turns are enough. -/
def extendTo (chunk : Bytes) (len : Nat) : Bytes := (extendLoop chunk len len []).take len

def fixedString (seed : Bytes) (len : Nat) : Bytes := extendTo (seed ++ ascii "-") len

def seededBytes (seed : UInt64) (len : Nat) : Bytes := rng.fill (seed + 7) len

def makePayload (size : Nat) (kind : PayloadKind) (seed : UInt64) : Bytes :=
  match kind with
  | .random => rng.fill (seed + 1) size
  | .structured =>
      extendTo (ascii s!"\x7b\"id\":{seed},\"name\":\"tonic-profile\",\"flags\":[1,0,1],\"payload\":\"" ++
        ascii "abcdefghijklmnoqrstuvwxyz0123456789") size
  | .repeated => List.replicate size 82

def fleetSmall (seed : UInt64) : FleetSmallShape where
  id := seed % 32 + 1
  service := ascii "svc-" ++ padded 10 4 (seed % 10000).toNat
  method := ascii "unary-" ++ padded 10 4 (seed % 10000).toNat
  flags := [1, 0, 1, (seed % 3).toUInt32]
  token := seededBytes rng seed 16

def fleetStringLeaf (seed : UInt64) (idx : Nat) : FleetStringLeaf where
  name := fixedString (ascii s!"leaf-{idx}") 18
  value := fixedString (ascii s!"value-{seed % 41}-{idx}") 40
  samples := (List.range 3).map fun sample =>
    fixedString (ascii s!"sample-{idx}-{sample}-{seed % 53}") 26

def fleetStringHeavy (seed : UInt64) : FleetStringHeavyShape where
  id := seed % 32 + 10
  labels := (List.range 6).map fun idx => fixedString (ascii s!"label-{idx}-{seed % 97}") 28
  paths := (List.range 4).map fun idx => fixedString (ascii s!"/fleet/{idx}/{seed % 31}") 36
  counters := (List.range 10).map fun idx => (seed + UInt64.ofNat idx) % 64 + 1
  leaves := (List.range 4).map (fleetStringLeaf seed)
  note := fixedString (ascii s!"note-{seed % 67}") 52

def fleetResponseEntry (seed : UInt64) (idx : Nat) : FleetResponseEntry where
  key := fixedString (ascii s!"key-{idx}") 16
  value := fixedString (ascii s!"value-{idx}-{seed % 29}") 48
  tags := (List.range 5).map fun tag => fixedString (ascii s!"tag-{idx}-{tag}") 18
  samples := (List.range 10).map fun sample =>
    (seed + UInt64.ofNat idx * 10 + UInt64.ofNat sample) % 96 + 1
  digest := seededBytes rng (seed + UInt64.ofNat idx) 24

def fleetResponseHeavy (seed : UInt64) : FleetResponseHeavyShape where
  tenantId := seed % 64 + 100
  traceId := fixedString (ascii "trace-" ++ padded 16 16 (seed + 100).toNat) 32
  regions := (List.range 6).map fun idx => fixedString (ascii s!"region-{idx}-{seed % 13}") 20
  entries := (List.range 12).map (fleetResponseEntry rng seed)
  digests := (List.range 10).map fun idx => seededBytes rng (seed + UInt64.ofNat idx + 50) 20
  histogram := (List.range 32).map fun idx => (seed + UInt64.ofNat idx) % 96 + 1
  summary := fixedString (ascii s!"response-heavy-summary-{seed % 101}") 96

def buildProtoMessage (shape : ProtoShape) (seed : UInt64) : CompactProfileShape :=
  match shape with
  | .fleetSmall => ⟨some (.fleetSmall (fleetSmall rng seed))⟩
  | .fleetStringHeavy => ⟨some (.fleetStringHeavy (fleetStringHeavy seed))⟩
  | .fleetResponseHeavy => ⟨some (.fleetResponseHeavy (fleetResponseHeavy rng seed))⟩

def protoShapeFromMessage (message : CompactProfileShape) : Option ProtoShape :=
  message.shape.map fun
    | .fleetSmall _ => .fleetSmall
    | .fleetStringHeavy _ => .fleetStringHeavy
    | .fleetResponseHeavy _ => .fleetResponseHeavy

def ProtoShape.kind : ProtoShape → ShapeKind
  | .fleetSmall => .fleetSmall
  | .fleetStringHeavy => .fleetStringHeavy
  | .fleetResponseHeavy => .fleetResponseHeavy

def ProtoShape.toWire (shape : ProtoShape) : BitVec 32 := schema.kind shape.kind

/-- `ShapeKind::try_from`. -/
def ShapeKind.tryFrom (value : BitVec 32) : Option ShapeKind :=
  [.unspecified, .fleetSmall, .fleetStringHeavy, .fleetResponseHeavy].find? fun k =>
    schema.kind k = value

/-- The source returns a `Result`, which is never an error. -/
def protoShapeFromWire (value : BitVec 32) : Option ProtoShape :=
  match (ShapeKind.tryFrom schema value).getD .unspecified with
  | .unspecified => none
  | .fleetSmall => some .fleetSmall
  | .fleetStringHeavy => some .fleetStringHeavy
  | .fleetResponseHeavy => some .fleetResponseHeavy

/-! ## Requests -/

def requestPoolLen : Nat := 4

inductive PreparedRequestBody where
  | bytes (b : Bytes)
  | proto (m : CompactProfileShape)

/-- A prepared request; a message is prepared together with the shape of its reply. -/
structure PreparedRequest where
  body : PreparedRequestBody
  expectedResponseShape : Option ProtoShape
  requestSerializedSize : Nat
  responseSerializedSize : Nat
  valid : ∀ m, body = .proto m → expectedResponseShape.isSome = true

def prepareBytes (args : Args) (workerSeed : UInt64) (offset : Nat) : PreparedRequest :=
  let payload := makePayload rng args.payloadSize args.payloadKind (workerSeed * 100 + UInt64.ofNat offset)
  let request : EchoRequest := ⟨some (.payload payload), schema.kind .unspecified⟩
  let reply : EchoReply := ⟨some (.payload payload)⟩
  ⟨.bytes payload, none, (request.encode schema).length, (reply.encode schema).length, nofun⟩

def prepareProto (requestShape responseShape : ProtoShape) (workerSeed : UInt64) (offset : Nat) :
    PreparedRequest :=
  let requestMessage := buildProtoMessage rng requestShape (workerSeed * 100 + UInt64.ofNat offset)
  let responseMessage :=
    buildProtoMessage rng responseShape (10000 + workerSeed * 100 + UInt64.ofNat offset)
  let request : EchoRequest := ⟨some (.protoPayload requestMessage), responseShape.toWire schema⟩
  let reply : EchoReply := ⟨some (.protoPayload responseMessage)⟩
  ⟨.proto requestMessage, some responseShape, (request.encode schema).length,
    (reply.encode schema).length, fun _ _ => rfl⟩

def buildRequestPool (args : Args) (workerSeed : UInt64) : List PreparedRequest :=
  match h : args.rpc with
  | .unaryBytes => (List.range requestPoolLen).map (prepareBytes schema rng args workerSeed)
  | .unaryProtoShape =>
      let requestShape := args.protoShape.get (args.valid h)
      let responseShape := resolveResponseShape requestShape args.responseShape
      (List.range requestPoolLen).map (prepareProto schema rng requestShape responseShape workerSeed)

def PreparedRequest.request (p : PreparedRequest) : EchoRequest :=
  match h : p.body with
  | .bytes payload => ⟨some (.payload payload), schema.kind .unspecified⟩
  | .proto message =>
      ⟨some (.protoPayload message), (p.expectedResponseShape.get (p.valid message h)).toWire schema⟩

def validateResponse (prepared : PreparedRequest) (response : EchoReply) : Except String Nat :=
  match prepared.body, response.body with
  | .bytes _, some (.payload _) => .ok (response.encode schema).length
  | .bytes _, some (.protoPayload _) =>
      .error "bytes workload received a proto response instead of an echoed bytes payload"
  | .proto _, some (.payload _) =>
      .error "proto-shape workload received a bytes response instead of a proto shape"
  | .proto _, some (.protoPayload message) =>
      match protoShapeFromMessage message with
      | none => .error "proto-shape response body was missing a concrete shape"
      | some actual =>
          match prepared.expectedResponseShape with
          | none => .error "proto workload missing expected response shape"
          | some expected =>
              if actual ≠ expected then
                .error (s!"response shape mismatch: expected {serializeProtoShape expected}, " ++
                  s!"got {serializeProtoShape actual}")
              else
                let actualSize := (response.encode schema).length
                if actualSize ≠ prepared.responseSerializedSize then
                  .error (s!"response serialized size mismatch for {serializeProtoShape expected}: " ++
                    s!"expected {prepared.responseSerializedSize}, got {actualSize}")
                else .ok actualSize
  | _, none => .error "response body was missing"

/-! ## The server -/

/-- A pool is indexed modulo its length, which is not zero. -/
structure MessagePool where
  messages : List CompactProfileShape
  pos : 0 < messages.length

structure ProtoPools where
  fleetSmall : MessagePool
  fleetStringHeavy : MessagePool
  fleetResponseHeavy : MessagePool

def MessagePool.new (shape : ProtoShape) : MessagePool where
  messages := (List.range requestPoolLen).map fun seed => buildProtoMessage rng shape (UInt64.ofNat seed)
  pos := by simp [requestPoolLen]

def ProtoPools.new : ProtoPools :=
  ⟨.new rng .fleetSmall, .new rng .fleetStringHeavy, .new rng .fleetResponseHeavy⟩

def ProtoPools.pool (pools : ProtoPools) : ProtoShape → MessagePool
  | .fleetSmall => pools.fleetSmall
  | .fleetStringHeavy => pools.fleetStringHeavy
  | .fleetResponseHeavy => pools.fleetResponseHeavy

def ProtoPools.pick (pools : ProtoPools) (shape : ProtoShape) (index : UInt64) : CompactProfileShape :=
  let pool := pools.pool shape
  pool.messages.get ⟨index.toNat % pool.messages.length, Nat.mod_lt _ pool.pos⟩

/-- The reply that `unary_echo` builds, and the index for the next one. -/
def unaryEcho (pools : ProtoPools) (nextProtoIndex : UInt64) (request : EchoRequest) :
    Except Status (EchoReply × UInt64) :=
  match request.body with
  | none => .error (.invalidArgument "missing request body")
  | some (.payload payload) => .ok (⟨some (.payload payload)⟩, nextProtoIndex)
  | some (.protoPayload protoPayload) =>
      match protoShapeFromMessage protoPayload with
      | none => .error (.invalidArgument "missing proto shape body")
      | some requestShape =>
          let responseShape :=
            (protoShapeFromWire schema request.requestedResponseShape).getD requestShape
          .ok (⟨some (.protoPayload (pools.pick responseShape nextProtoIndex))⟩, nextProtoIndex + 1)

end DsaStdexec.Profile
