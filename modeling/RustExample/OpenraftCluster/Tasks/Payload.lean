import RustExample.Foundation.JsonStruct
import RustExample.OpenraftCluster.Tasks.JsonForms

/-!
# Task payloads

What a task does is a payload of one of six kinds. It is stored as a JSON object that has a tag for
its kind beside the fields of the kind, and the worker reads it back by the tag. A payload without
a tag is an e-mail, as all payloads were before there was one.

Source: `src/tasks/handlers.rs`.

* How sonic-rs writes and reads a JSON tree as text is a parameter.
* What the handlers do is left out, but for the body that a webhook sends.
-/

namespace RustExample.OpenraftCluster

open JsonStruct List

/-! ### The kinds -/

/-- The payload of an e-mail. -/
structure Email where
  /-- The field `to`. -/
  recipient : String

/-- Without a body, `{"task_id": <id>}` is sent. -/
structure Webhook where
  url : String
  body : Option Value

/-- The payload of a digest. -/
structure DigestSpec where
  data : String
  iterations : UInt32

/-- The payload of a write. -/
structure KvSet where
  key : String
  value : String
  groupId : String

/-- The payload of a wait. -/
structure Sleep where
  secs : UInt64

/-- One of `moduleWat`, `moduleB64` and `moduleFile` says where the module is. -/
structure WasmExec where
  moduleWat : Option String
  moduleB64 : Option String
  moduleFile : Option String
  moduleSha256 : Option String
  args : List String
  env : KeyStore String String
  config : KeyStore String String
  name : Option String

/-- The payload of a task. -/
inductive TaskPayload where
  | email (e : Email)
  | webhook (w : Webhook)
  | digest (d : DigestSpec)
  | kvSet (kv : KvSet)
  | sleep (s : Sleep)
  | wasm (w : WasmExec)

/-- The name of a kind. -/
def TaskPayload.kind : TaskPayload → String
  | .email _ => "email"
  | .webhook _ => "webhook"
  | .digest _ => "digest"
  | .kvSet _ => "kv_set"
  | .sleep _ => "sleep"
  | .wasm _ => "wasm"

/-! ### Fields -/

/-- The rounds of a digest. -/
def defaultDigestIterations : UInt32 := 1

/-- The group of a write. -/
def defaultKvGroup : String := "users"

/-- An optional string that is left out if there is none. -/
def optionalStr (name : String) (s : Option String) : List (String × Value) :=
  memberIfSome name (s.map .str)

/-- Reads a text that may be missing. -/
def readOptionalStr (name : String) (members : List (String × Value)) :
    Except String (Option String) :=
  withDefault (readOption readString) none name members

/-- The members of its object. -/
def Email.members (e : Email) : List (String × Value) := [("to", .str e.recipient)]

/-- Reads an e-mail. -/
def Email.ofJson (v : Value) : Except String Email := do
  let members ← structFields ["to"] v
  return { recipient := ← required readString "to" members }

/-- The members of its object. -/
def Webhook.members (w : Webhook) : List (String × Value) :=
  [("url", .str w.url), ("body", writeOption id w.body)]

/-- Reads a webhook. -/
def Webhook.ofJson (v : Value) : Except String Webhook := do
  let members ← structFields ["url", "body"] v
  let url ← required readString "url" members
  let body ← withDefault (readOption .ok) none "body" members
  return { url, body }

/-- The members of its object. -/
def DigestSpec.members (d : DigestSpec) : List (String × Value) :=
  [("data", .str d.data), ("iterations", .num (.unsigned d.iterations.toUInt64))]

/-- Reads a digest. -/
def DigestSpec.ofJson (v : Value) : Except String DigestSpec := do
  let members ← structFields ["data", "iterations"] v
  let data ← required readString "data" members
  let iterations ← withDefault readU32 defaultDigestIterations "iterations" members
  return { data, iterations }

/-- The members of its object. -/
def KvSet.members (kv : KvSet) : List (String × Value) :=
  [("key", .str kv.key), ("value", .str kv.value), ("group_id", .str kv.groupId)]

/-- Reads a write. -/
def KvSet.ofJson (v : Value) : Except String KvSet := do
  let members ← structFields ["key", "value", "group_id"] v
  let key ← required readString "key" members
  let value ← required readString "value" members
  let groupId ← withDefault readString defaultKvGroup "group_id" members
  return { key, value, groupId }

/-- The members of its object. -/
def Sleep.members (s : Sleep) : List (String × Value) :=
  [("secs", .num (.unsigned s.secs))]

/-- Reads a wait. -/
def Sleep.ofJson (v : Value) : Except String Sleep := do
  let members ← structFields ["secs"] v
  return { secs := ← required readU64 "secs" members }

/-- The members of its object. -/
def WasmExec.members (w : WasmExec) : List (String × Value) :=
  optionalStr "module_wat" w.moduleWat ++ (optionalStr "module_b64" w.moduleB64 ++
    (optionalStr "module_file" w.moduleFile ++ (optionalStr "module_sha256" w.moduleSha256 ++
    ([("args", writeList .str w.args), ("env", writeMap .str w.env)] ++
    (memberIfSome "config" (if w.config.isEmpty then none else some (writeMap .str w.config)) ++
    optionalStr "name" w.name)))))

/-- The fields of a module run. -/
def WasmExec.fieldNames : List String :=
  ["module_wat", "module_b64", "module_file", "module_sha256", "args", "env", "config", "name"]

/-- Reads a module run. -/
def WasmExec.ofJson (v : Value) : Except String WasmExec := do
  let members ← structFields fieldNames v
  let moduleWat ← readOptionalStr "module_wat" members
  let moduleB64 ← readOptionalStr "module_b64" members
  let moduleFile ← readOptionalStr "module_file" members
  let moduleSha256 ← readOptionalStr "module_sha256" members
  let args ← withDefault (readList readString) [] "args" members
  let env ← withDefault (readMap readString) ∅ "env" members
  let config ← withDefault (readMap readString) ∅ "config" members
  let name ← readOptionalStr "name" members
  return { moduleWat, moduleB64, moduleFile, moduleSha256, args, env, config, name }

/-! ### Encoding and decoding -/

/-- How sonic-rs writes a JSON tree and reads a text. -/
structure SonicRs where
  toString : Value → Except String String
  fromStr : String → Except String Value

/-- A tree is read back from its text. -/
def SonicRs.Lossless (text : SonicRs) (v : Value) : Prop :=
  (text.toString v >>= text.fromStr) = .ok v

namespace TaskPayload

/-- The members of its object. -/
def members : TaskPayload → List (String × Value)
  | .email e => e.members
  | .webhook w => w.members
  | .digest d => d.members
  | .kvSet kv => kv.members
  | .sleep s => s.members
  | .wasm w => w.members

/-- The tag comes before the fields of the kind. -/
def toJson (p : TaskPayload) : Value := .obj (("kind", .str p.kind) :: p.members)

/-- The kinds, and how the fields of each are read. -/
def kinds : List (String × (Value → Except String TaskPayload)) :=
  [("email", fun v => (Email.ofJson v).map .email),
    ("webhook", fun v => (Webhook.ofJson v).map .webhook),
    ("digest", fun v => (DigestSpec.ofJson v).map .digest),
    ("kv_set", fun v => (KvSet.ofJson v).map .kvSet),
    ("sleep", fun v => (Sleep.ofJson v).map .sleep),
    ("wasm", fun v => (WasmExec.ofJson v).map .wasm)]

/-- The names of the kinds. -/
def knownKinds : List String := kinds.map Prod.fst

/-- Writes a payload. -/
def encode (text : SonicRs) (p : TaskPayload) : Except String String :=
  (text.toString p.toJson).mapError ("encode task payload: " ++ ·)

/-- The tag of a payload, if it has one. -/
def payloadKind (text : SonicRs) (payload : String) : Except String (Option String) :=
  (do
    let members ← structFields ["kind"] (← text.fromStr payload)
    readOptionalStr "kind" members).mapError ("task payload is not a JSON object: " ++ ·)

/-- Reads a payload of some kind. -/
def variant (text : SonicRs) (kind payload : String)
    (read : Value → Except String TaskPayload) : Except String TaskPayload :=
  (text.fromStr payload >>= read).mapError ("decode " ++ kind ++ " payload: " ++ ·)

/-- Reads a payload. -/
def decode (text : SonicRs) (payload : String) : Except String TaskPayload := do
  match ← payloadKind text payload with
  | none => variant text "email" payload fun v => (Email.ofJson v).map .email
  | some kind =>
    match kinds.lookup kind with
    | some read => variant text kind payload read
    | none =>
      .error ("unknown task kind " ++ debugStr kind ++ " (known: " ++ ", ".intercalate knownKinds ++
        ")")

end TaskPayload

/-- The body that a webhook of a task sends. -/
def Webhook.sentBody (w : Webhook) (taskId : String) : Value :=
  w.body.getD (.obj [("task_id", .str taskId)])

/-! ### Reading back -/

/-- An object with the tag `k` beside some members. -/
abbrev tagged (k : String) (members : List (String × Value)) : Value :=
  .obj (("kind", .str k) :: members)

theorem readOptionalStr_of_lookup {name : String} {members : List (String × Value)}
    {s : Option String} (h : members.lookup name = s.map .str) :
    readOptionalStr name members = .ok s := by
  rw [readOptionalStr, withDefault, h]
  cases s <;> simp [readOption, readString]

theorem Email.ofJson_tagged (k : String) (e : Email) :
    Email.ofJson (tagged k e.members) = .ok e := by
  rw [Email.ofJson, structFields_obj (by simp [members])]
  simp [members, required, readString, lookup_cons]

theorem DigestSpec.ofJson_tagged (k : String) (d : DigestSpec) :
    DigestSpec.ofJson (tagged k d.members) = .ok d := by
  rw [DigestSpec.ofJson, structFields_obj (by simp [members])]
  simp [members, required, withDefault, readString, readU32_unsigned, lookup_cons]

theorem KvSet.ofJson_tagged (k : String) (kv : KvSet) :
    KvSet.ofJson (tagged k kv.members) = .ok kv := by
  rw [KvSet.ofJson, structFields_obj (by simp [members])]
  simp [members, required, withDefault, readString, lookup_cons]

theorem Sleep.ofJson_tagged (k : String) (s : Sleep) :
    Sleep.ofJson (tagged k s.members) = .ok s := by
  rw [Sleep.ofJson, structFields_obj (by simp [members])]
  simp [members, required, readU64, lookup_cons]

/-- The body of a webhook is read back, unless it is `null`. -/
theorem Webhook.ofJson_tagged (k : String) (w : Webhook) :
    Webhook.ofJson (tagged k w.members) = .ok w ↔ w.body ≠ some .null := by
  obtain ⟨url, body⟩ := w
  have hbody : readOption .ok (writeOption id body) = .ok body ↔ body ≠ some .null := by
    have hread (v : Value) : (Except.ok (id v) : Except String Value) = .ok v := rfl
    rw [readOption_writeOption_iff hread]
    exact ⟨fun h hnull => h _ hnull rfl, fun h a ha hnull => h (ha.trans (congrArg some hnull))⟩
  rw [ofJson, structFields_obj (by simp [members]), ← hbody]
  simp only [members, required, withDefault, readString, lookup_cons, beq_self_eq_true,
    ok_bind, show ("url" == "kind") = false from rfl, show ("body" == "kind") = false from rfl,
    show ("body" == "url") = false from rfl]
  cases readOption .ok (writeOption id body) <;> simp

theorem WasmExec.map_fst_members_sublist (w : WasmExec) :
    (w.members.map Prod.fst).Sublist fieldNames := by
  have hoption (name : String) (v : Option Value) := map_fst_memberIfSome_sublist name v
  simp only [members, map_append, optionalStr]
  exact (hoption _ _).append ((hoption _ _).append ((hoption _ _).append ((hoption _ _).append
    ((List.Sublist.refl _).append ((hoption _ _).append (hoption _ _))))))

theorem WasmExec.nodup_tagged (k : String) (w : WasmExec) :
    ((("kind", Value.str k) :: w.members).map Prod.fst).Nodup := by
  refine List.nodup_cons.mpr ⟨fun hmem => ?_, w.map_fst_members_sublist.nodup (by decide)⟩
  exact absurd (w.map_fst_members_sublist.subset hmem) (by simp [fieldNames])

theorem WasmExec.lookup_members (w : WasmExec) (name : String) :
    w.members.lookup name =
      if name = "module_wat" then w.moduleWat.map .str
      else if name = "module_b64" then w.moduleB64.map .str
      else if name = "module_file" then w.moduleFile.map .str
      else if name = "module_sha256" then w.moduleSha256.map .str
      else if name = "args" then some (writeList .str w.args)
      else if name = "env" then some (writeMap .str w.env)
      else if name = "config" then
        if w.config.isEmpty then none else some (writeMap .str w.config)
      else if name = "name" then w.name.map .str
      else none := by
  rw [members]
  simp only [optionalStr, lookup_append, lookup_memberIfSome]
  by_cases h1 : name = "module_wat"
  · simp [h1, lookup_cons]
  by_cases h2 : name = "module_b64"
  · simp [h2, lookup_cons]
  by_cases h3 : name = "module_file"
  · simp [h3, lookup_cons]
  by_cases h4 : name = "module_sha256"
  · simp [h4, lookup_cons]
  by_cases h5 : name = "args"
  · simp [h5]
  by_cases h6 : name = "env"
  · simp [h6, lookup_cons]
  by_cases h7 : name = "config"
  · simp [h7, lookup_cons]
  by_cases h8 : name = "name"
  · simp [h8, lookup_cons]
  simp [h1, h2, h3, h4, h5, h6, h7, h8, lookup_cons, beq_eq_false_iff_ne.mpr h5,
    beq_eq_false_iff_ne.mpr h6]

theorem WasmExec.ofJson_tagged (k : String) (w : WasmExec) :
    WasmExec.ofJson (tagged k w.members) = .ok w := by
  have hlookup (name : String) (hname : name ≠ "kind") :
      (("kind", Value.str k) :: w.members).lookup name = w.members.lookup name := by
    rw [lookup_cons, beq_eq_false_iff_ne.mpr hname]
  have hargs : readList readString (writeList .str w.args) = .ok w.args :=
    readList_writeList readString_str _
  have henv : readMap readString (writeMap .str w.env) = .ok w.env :=
    readMap_writeMap readString_str _
  -- A config that was left out is the empty one.
  have hconfig : withDefault (readMap readString) ∅ "config"
      (("kind", Value.str k) :: w.members) = .ok w.config := by
    rw [withDefault, hlookup _ (by decide), lookup_members]
    by_cases hempty : w.config.isEmpty
    · simp [Std.ExtTreeMap.isEmpty_iff.mp hempty]
    · simp [hempty, readMap_writeMap readString_str w.config]
  have hstr {name : String} {s : Option String} (hname : name ≠ "kind")
      (hs : w.members.lookup name = s.map .str) :
      readOptionalStr name (("kind", Value.str k) :: w.members) = .ok s :=
    readOptionalStr_of_lookup ((hlookup name hname).trans hs)
  rw [ofJson, structFields_obj (w.nodup_tagged k), ok_bind,
    hstr (by decide) (w.lookup_members "module_wat"),
    hstr (by decide) (w.lookup_members "module_b64"),
    hstr (by decide) (w.lookup_members "module_file"),
    hstr (by decide) (w.lookup_members "module_sha256"), hconfig,
    hstr (by decide) (w.lookup_members "name")]
  simp [withDefault, hlookup, lookup_members, hargs, henv]

/-! ### Round trips -/

namespace TaskPayload

variable {text : SonicRs} {payload : String} {p : TaskPayload}

theorem nodup_toJson (p : TaskPayload) :
    ((("kind", Value.str p.kind) :: p.members).map Prod.fst).Nodup := by
  cases p with
  | wasm w => exact w.nodup_tagged _
  | email => simp [members, Email.members]
  | webhook => simp [members, Webhook.members]
  | digest => simp [members, DigestSpec.members]
  | kvSet => simp [members, KvSet.members]
  | sleep => simp [members, Sleep.members]

/-- The tag that is read is the one that was written. -/
theorem payloadKind_eq (h : text.fromStr payload = .ok p.toJson) :
    payloadKind text payload = .ok (some p.kind) := by
  rw [payloadKind, h, ok_bind, toJson, structFields_obj p.nodup_toJson, ok_bind,
    readOptionalStr_of_lookup (s := some p.kind) lookup_cons_self]
  rfl

theorem decode_eq_ok (h : text.fromStr payload = .ok p.toJson)
    {read : Value → Except String TaskPayload} (hread : kinds.lookup p.kind = some read)
    {q : TaskPayload} : decode text payload = .ok q ↔ read p.toJson = .ok q := by
  rw [decode, payloadKind_eq h, ok_bind]
  simp only [hread]
  rw [variant, mapError_eq_ok, h, ok_bind]

/-- The fields of a payload are read back, but for a `null` body. -/
theorem decode_iff (h : text.fromStr payload = .ok p.toJson) :
    decode text payload = .ok p ↔ ∀ url, p ≠ .webhook ⟨url, some .null⟩ := by
  -- The reader of the kind reads the fields, and the payload is of its kind.
  have hkind {α : Type} {x : Except String α} {wrap : α → TaskPayload} {a : α}
      (hwrap : wrap a = p) (hinj : ∀ b, wrap b = p → b = a) : x.map wrap = .ok p ↔ x = .ok a := by
    rw [map_eq_ok]
    exact ⟨fun ⟨b, hb, hp⟩ => hinj b hp ▸ hb, fun hx => ⟨a, hx, hwrap⟩⟩
  cases p with
  | webhook w =>
    obtain ⟨url, body⟩ := w
    refine (decode_eq_ok h rfl).trans ((hkind rfl (by simp)).trans ?_)
    rw [show toJson _ = tagged "webhook" (Webhook.members ⟨url, body⟩) from rfl,
      Webhook.ofJson_tagged]
    simp
  | email e =>
    refine (decode_eq_ok h rfl).trans ((hkind rfl (by simp)).trans ?_)
    exact iff_of_true (Email.ofJson_tagged _ e) (by simp)
  | digest d =>
    refine (decode_eq_ok h rfl).trans ((hkind rfl (by simp)).trans ?_)
    exact iff_of_true (DigestSpec.ofJson_tagged _ d) (by simp)
  | kvSet kv =>
    refine (decode_eq_ok h rfl).trans ((hkind rfl (by simp)).trans ?_)
    exact iff_of_true (KvSet.ofJson_tagged _ kv) (by simp)
  | sleep s =>
    refine (decode_eq_ok h rfl).trans ((hkind rfl (by simp)).trans ?_)
    exact iff_of_true (Sleep.ofJson_tagged _ s) (by simp)
  | wasm w =>
    refine (decode_eq_ok h rfl).trans ((hkind rfl (by simp)).trans ?_)
    exact iff_of_true (WasmExec.ofJson_tagged _ w) (by simp)

end TaskPayload

/-- **Which payloads are read back**: all but a webhook whose body is the JSON `null`. -/
theorem payload_round_trip_iff (text : SonicRs) (p : TaskPayload) (h : text.Lossless p.toJson) :
    (p.encode text >>= TaskPayload.decode text) = .ok p ↔
      ∀ url, p ≠ .webhook ⟨url, some .null⟩ := by
  obtain ⟨s, hs, hread⟩ := bind_eq_ok.mp h
  rw [TaskPayload.encode, hs]
  exact TaskPayload.decode_iff hread

/-- A webhook that is to send `null`. -/
def nullWebhook : Webhook := ⟨"http://n1/x", some .null⟩

/-- The text of its payload, and of the one without a body. -/
def nullWebhookText : SonicRs where
  toString _ := .ok "\x7b\"kind\":\"webhook\",\"url\":\"http://n1/x\",\"body\":null\x7d"
  fromStr _ := .ok (TaskPayload.webhook nullWebhook).toJson

/-- A payload without a body is read back. -/
theorem payload_round_trip_iff_no_body :
    ((TaskPayload.webhook ⟨"http://n1/x", none⟩).encode nullWebhookText >>=
        TaskPayload.decode nullWebhookText) = .ok (.webhook ⟨"http://n1/x", none⟩) :=
  (payload_round_trip_iff nullWebhookText (.webhook ⟨"http://n1/x", none⟩) rfl).mpr
    fun _ h => by cases h

/-- A body that is `null` is read back as none, and the worker sends another one. -/
theorem null_body_is_lost :
    nullWebhookText.Lossless (TaskPayload.webhook nullWebhook).toJson ∧
    ((TaskPayload.webhook nullWebhook).encode nullWebhookText >>=
        TaskPayload.decode nullWebhookText) = .ok (.webhook ⟨"http://n1/x", none⟩) ∧
    ((TaskPayload.webhook nullWebhook).encode nullWebhookText >>=
        TaskPayload.decode nullWebhookText) ≠ .ok (.webhook nullWebhook) ∧
    nullWebhook.sentBody "t1" = .null ∧
    Webhook.sentBody ⟨"http://n1/x", none⟩ "t1" = .obj [("task_id", .str "t1")] := by
  have hnone : ((TaskPayload.webhook nullWebhook).encode nullWebhookText >>=
      TaskPayload.decode nullWebhookText) = .ok (.webhook ⟨"http://n1/x", none⟩) := rfl
  refine ⟨rfl, hnone, ?_, rfl, rfl⟩
  rw [hnone]
  simp [nullWebhook]

end RustExample.OpenraftCluster
