import VibeField.Contracts.CanonicalJson
import VibeField.Fieldd.Minter

/-!
# What a signed grant says

A grant is signed over the canonical text of its header and its claims, and the verifier
reads the claims off the same value.  Numbers are read as 64-bit words.  Two grants with
one signed text are read as the same claims up to the doubles of their numbers; and as the
same claims, where no number is past `2 ^ 53`.
-/

namespace VibeField.Tp.Jcs

open Json Double List Option
open Fieldd (SessionAttachGrantClaims)

/-! ## Reading claims -/

def asU64 : Json → Option Nat
  | .int n => if 0 ≤ n then some n.toNat else none
  | _ => none

def asStr : Json → Option String
  | .str s => some s
  | _ => none

def asVariant {α : Type} (named : String → Option α) : Json → Option α
  | .str s => named s
  | .obj [(k, .null)] => named k
  | _ => none

def asVec {α : Type} (item : Json → Option α) : Json → Option (List α)
  | .arr items => items.mapM item
  | _ => none

def asOption {α : Type} (read : Json → Option α) : Json → Option (Option α)
  | .null => some none
  | v => (read v).map some

def get (fields : List (String × Json)) (name : String) : Option Json :=
  (fields.find? fun e => e.1 = name).map fun e => e.2

def field {α : Type} (fields : List (String × Json)) (name : String) (read : Json → Option α) :
    Option α :=
  (get fields name).bind read

def fieldOr {α : Type} (fields : List (String × Json)) (name : String) (read : Json → Option α) :
    Option (Option α) :=
  match get fields name with
  | none => some none
  | some v => asOption read v

def channelNamed : String → Option Channel
  | "control" => some .control
  | "frames" => some .frames
  | _ => none

def rightNamed : String → Option AttachRight
  | "geometry" => some .geometry
  | "geometryAdmin" => some .geometryAdmin
  | "input" => some .input
  | "read" => some .read
  | _ => none

/-- A face, its fields by name or in order. -/
def asFace : Json → Option GeometryHolderFace
  | .obj fields => do
    let kind ← field fields "kind" asStr
    let name ← field fields "name" asStr
    let os ← fieldOr fields "os" asStr
    return { kind, name, os }
  | .arr [kind, name] => do
    let kind ← asStr kind
    let name ← asStr name
    return { kind, name, os := none }
  | .arr [kind, name, os] => do
    let kind ← asStr kind
    let name ← asStr name
    let os ← asOption asStr os
    return { kind, name, os }
  | _ => none

def readTransport (fields : List (String × Json)) : Option TransportClaims := do
  let audienceCellBootId ← field fields "audienceCellBootId" asStr
  let clientId ← field fields "clientId" asStr
  let connectionSetId ← field fields "connectionSetId" asStr
  let allowedChannels ← field fields "allowedChannels" (asVec (asVariant channelNamed))
  let transportGrantGeneration ← field fields "transportGrantGeneration" asU64
  let issuedAt ← field fields "issuedAt" asU64
  let expiresAt ← field fields "expiresAt" asU64
  let nonce ← field fields "nonce" asStr
  return { audienceCellBootId, clientId, connectionSetId, allowedChannels,
           transportGrantGeneration, issuedAt, expiresAt, nonce }

def readAttach (fields : List (String × Json)) : Option SessionAttachGrantClaims := do
  let audienceCellBootId ← field fields "audienceCellBootId" asStr
  let clientId ← field fields "clientId" asStr
  let sessionId ← field fields "sessionId" asStr
  let leaseEpoch ← fieldOr fields "leaseEpoch" asU64
  let routeRevision ← field fields "routeRevision" asU64
  let grantGeneration ← field fields "grantGeneration" asU64
  let rights ← field fields "rights" (asVec (asVariant rightNamed))
  let issuedAt ← field fields "issuedAt" asU64
  let expiresAt ← field fields "expiresAt" asU64
  let face ← fieldOr fields "face" asFace
  return { audienceCellBootId, clientId, sessionId, leaseEpoch, routeRevision,
           grantGeneration, rights, issuedAt, expiresAt, face }

/-! ## Reading the value a signature covers -/

def covered (v : Json) : Json := sorted keyLe (widened v)

def coveredFields (fields : List (String × Json)) : List (String × Json) :=
  sortFields keyLe (fields.map fun e => (e.1, covered e.2))

theorem covered_arr (items : List Json) : covered (.arr items) = .arr (items.map covered) := by
  rw [covered, widened, mapInts_arr, sorted_arr, List.map_map]
  rfl

theorem covered_obj (fields : List (String × Json)) :
    covered (.obj fields) = .obj (coveredFields fields) := by
  rw [covered, widened, mapInts_obj, sorted_obj, List.map_map]
  rfl

variable {fields : List (String × Json)} {v : Json} {α : Type}

theorem get_eq_some_iff (h : (fields.map Prod.fst).Nodup) {name : String} :
    get fields name = some v ↔ (name, v) ∈ fields := by
  constructor
  · intro hget
    obtain ⟨e, he, rfl⟩ := map_eq_some_iff.mp hget
    have hname : e.1 = name := by simpa using List.find?_some he
    rw [← hname]
    exact List.mem_of_find?_eq_some he
  · intro hmem
    induction fields with
    | nil => cases hmem
    | cons e rest ih =>
      rw [map_cons, nodup_cons] at h
      rw [get, List.find?_cons]
      rcases mem_cons.mp hmem with rfl | hrest
      · simp
      · have hne : e.1 ≠ name := by
          rintro rfl
          exact h.1 (List.mem_map.mpr ⟨_, hrest, rfl⟩)
        rw [show decide (e.1 = name) = false from decide_eq_false hne]
        exact ih h.2 hrest

theorem get_map (f : Json → Json) (fields : List (String × Json)) (name : String) :
    get (fields.map fun e => (e.1, f e.2)) name = (get fields name).map f := by
  unfold get
  rw [List.find?_map, Option.map_map, Option.map_map]
  rfl

theorem get_covered (h : (fields.map Prod.fst).Nodup) (name : String) :
    get (coveredFields fields) name = (get fields name).map covered := by
  have hkeys : ((fields.map fun e => (e.1, covered e.2)).map Prod.fst).Nodup := by
    rw [keys_mapFields]
    exact h
  have hperm : (coveredFields fields).Perm (fields.map fun e => (e.1, covered e.2)) :=
    mergeSort_perm _ _
  have hsorted : ((coveredFields fields).map Prod.fst).Nodup :=
    (hperm.map Prod.fst).nodup_iff.mpr hkeys
  rw [← get_map]
  refine ext fun v => ?_
  rw [get_eq_some_iff hsorted, get_eq_some_iff hkeys]
  exact hperm.mem_iff

/-- Reading the covered value is reading the value, up to `g`. -/
def Covers {α : Type} (read : Json → Option α) (g : α → α) : Prop :=
  ∀ v, Valid InRange v → read (covered v) = (read v).map g

theorem asF64_nonneg (n : Int) : 0 ≤ asF64 n ↔ 0 ≤ n := by
  have hsign := asF64_sign n
  constructor
  · intro h
    by_contra hn
    have hneg : n.sign = -1 := Int.sign_eq_neg_one_of_neg (by omega)
    have hle := Int.sign_nonneg_iff.mpr h
    omega
  · intro h
    by_contra hn
    have hneg : (asF64 n).sign = -1 := Int.sign_eq_neg_one_of_neg (by omega)
    have hle := Int.sign_nonneg_iff.mpr h
    omega

theorem asU64_covers : Covers asU64 toDouble := by
  intro v _
  cases v with
  | int n =>
    show (if 0 ≤ asF64 n then some (asF64 n).toNat else none) = _
    by_cases hn : 0 ≤ n
    · have hpos := (asF64_nonneg n).mpr hn
      have habs := asF64_natAbs n
      have hnat : (asF64 n).toNat = toDouble n.toNat := by
        rw [show n.toNat = n.natAbs by omega, ← habs]
        omega
      rw [if_pos hpos, asU64, if_pos hn, hnat]
      rfl
    · rw [if_neg (mt (asF64_nonneg n).mp hn), asU64, if_neg hn]
      rfl
  | arr items => rw [covered_arr]; rfl
  | obj fields => rw [covered_obj]; rfl
  | _ => rfl

theorem asStr_covers : Covers asStr id := by
  intro v _
  cases v with
  | arr items => rw [covered_arr]; rfl
  | obj fields => rw [covered_obj]; rfl
  | _ => rfl

theorem covered_eq_null : covered v = .null ↔ v = .null := by
  constructor
  · intro h
    cases v with
    | arr items =>
      rw [covered_arr] at h
      cases h
    | obj fields =>
      rw [covered_obj] at h
      cases h
    | null => rfl
    | _ => cases h
  · rintro rfl
    rfl

theorem asVariant_content (named : String → Option α) (k : String) (h : v ≠ .null) :
    asVariant named (.obj [(k, v)]) = none := by
  cases v with
  | null => exact absurd rfl h
  | _ => rfl

theorem asVariant_long (named : String → Option α) (h : 2 ≤ fields.length) :
    asVariant named (.obj fields) = none := by
  match fields, h with
  | (k, v) :: e :: rest, _ => cases v <;> rfl

theorem asVariant_covers (named : String → Option α) : Covers (asVariant named) id := by
  intro v _
  rw [Option.map_id]
  cases v with
  | arr items => rw [covered_arr]; rfl
  | obj fields =>
    rw [covered_obj]
    match fields with
    | [] =>
      rw [coveredFields, map_nil, sortFields, mergeSort_nil]
      rfl
    | [(k, v)] =>
      show asVariant named (.obj (sortFields keyLe [(k, covered v)])) = _
      rw [sortFields, mergeSort_singleton]
      by_cases hv : v = .null
      · subst hv
        rfl
      · rw [asVariant_content named k hv,
          asVariant_content named k (mt covered_eq_null.mp hv)]
        rfl
    | e :: e' :: rest =>
      have hlong : 2 ≤ (coveredFields (e :: e' :: rest)).length := by
        rw [coveredFields, sortFields, length_mergeSort, length_map]
        simp
      rw [asVariant_long named hlong, asVariant_long named (by simp)]
      rfl
  | _ => rfl

theorem asVec_covers {item : Json → Option α} (h : Covers item id) : Covers (asVec item) id := by
  intro v hv
  cases hv with
  | arr items hall =>
    rw [covered_arr]
    show (items.map covered).mapM item = Option.map id (items.mapM item)
    rw [Option.map_id]
    induction items with
    | nil => rfl
    | cons v rest ih =>
      have hhead := h v (hall v mem_cons_self)
      rw [Option.map_id] at hhead
      rw [map_cons, mapM_cons, mapM_cons, hhead,
        ih fun w hw => hall w (mem_cons_of_mem v hw)]
      rfl
  | obj fields _ _ => rw [covered_obj]; rfl
  | _ => rfl

theorem asOption_of_ne (read : Json → Option α) (h : v ≠ .null) :
    asOption read v = (read v).map some := by
  cases v with
  | null => exact absurd rfl h
  | _ => rfl

variable {read : Json → Option α}

theorem asOption_covers {g : α → α} (h : Covers read g) :
    Covers (asOption read) (Option.map g) := by
  intro v hv
  by_cases hnull : v = .null
  · subst hnull
    rfl
  · rw [asOption_of_ne read hnull, asOption_of_ne read (mt covered_eq_null.mp hnull), h v hv,
      Option.map_map, Option.map_map]
    rfl

structure Members (fields : List (String × Json)) : Prop where
  keys : (fields.map Prod.fst).Nodup
  valid : ∀ e ∈ fields, Valid InRange e.2

theorem Members.get (h : Members fields) {name : String} (hv : Jcs.get fields name = some v) :
    Valid InRange v :=
  h.valid _ ((get_eq_some_iff h.keys).mp hv)

theorem field_covers {g : α → α} (h : Covers read g)
    (hfields : Members fields) (name : String) :
    field (coveredFields fields) name read = (field fields name read).map g := by
  rw [field, field, get_covered hfields.keys]
  cases hget : get fields name with
  | none => rfl
  | some v => exact h v (hfields.get hget)

theorem fieldOr_covers {g : α → α} (h : Covers read g)
    (hfields : Members fields) (name : String) :
    fieldOr (coveredFields fields) name read = (fieldOr fields name read).map (Option.map g) := by
  rw [fieldOr, fieldOr, get_covered hfields.keys]
  cases hget : get fields name with
  | none => rfl
  | some v => exact asOption_covers h v (hfields.get hget)

theorem asFace_covers : Covers asFace id := by
  intro v hv
  cases hv with
  | obj fields hkeys hall =>
    have hfields : Members fields := ⟨hkeys, hall⟩
    rw [covered_obj]
    show (do
        let kind ← field (coveredFields fields) "kind" asStr
        let name ← field (coveredFields fields) "name" asStr
        let os ← fieldOr (coveredFields fields) "os" asStr
        return ({ kind, name, os } : GeometryHolderFace)) = Option.map id (asFace (.obj fields))
    rw [field_covers asStr_covers hfields, field_covers asStr_covers hfields,
      fieldOr_covers asStr_covers hfields]
    simp only [Option.map_id, id_eq]
    rfl
  | arr items hall =>
    rw [covered_arr, Option.map_id]
    have hstr : ∀ v ∈ items, asStr (covered v) = asStr v := by
      intro v hv
      have h := asStr_covers v (hall v hv)
      rwa [Option.map_id] at h
    match items with
    | [] => rfl
    | [_] => rfl
    | [kind, name] =>
      show (do
          let kind ← asStr (covered kind)
          let name ← asStr (covered name)
          return ({ kind, name, os := none } : GeometryHolderFace)) = _
      rw [hstr kind (by simp), hstr name (by simp)]
      rfl
    | [kind, name, os] =>
      have hos := asOption_covers asStr_covers os (hall os (by simp))
      show (do
          let kind ← asStr (covered kind)
          let name ← asStr (covered name)
          let os ← asOption asStr (covered os)
          return ({ kind, name, os } : GeometryHolderFace)) = _
      rw [hstr kind (by simp), hstr name (by simp), hos]
      simp only [Option.map_id, id_eq]
      rfl
    | _ :: _ :: _ :: _ :: _ => rfl
  | _ => rfl

/-! ## One signed text, one reading -/

def TransportClaims.widened (c : TransportClaims) : TransportClaims :=
  { c with
    transportGrantGeneration := toDouble c.transportGrantGeneration
    issuedAt := toDouble c.issuedAt
    expiresAt := toDouble c.expiresAt }

def AttachClaims.widened (c : SessionAttachGrantClaims) : SessionAttachGrantClaims :=
  { c with
    leaseEpoch := c.leaseEpoch.map toDouble
    routeRevision := toDouble c.routeRevision
    grantGeneration := toDouble c.grantGeneration
    issuedAt := toDouble c.issuedAt
    expiresAt := toDouble c.expiresAt }

theorem readTransport_covered (h : Members fields) :
    readTransport (coveredFields fields) =
      (readTransport fields).map TransportClaims.widened := by
  unfold readTransport
  rw [field_covers asStr_covers h, field_covers asStr_covers h, field_covers asStr_covers h,
    field_covers (asVec_covers (asVariant_covers channelNamed)) h, field_covers asU64_covers h,
    field_covers asU64_covers h, field_covers asU64_covers h, field_covers asStr_covers h]
  simp only [Option.map_id, id_eq]
  -- a missing field fails both readings; the numbers are read as doubles
  rcases field fields "audienceCellBootId" asStr with _ | audience
  · rfl
  rcases field fields "clientId" asStr with _ | clientId
  · rfl
  rcases field fields "connectionSetId" asStr with _ | connectionSetId
  · rfl
  rcases field fields "allowedChannels" (asVec (asVariant channelNamed)) with _ | channels
  · rfl
  rcases field fields "transportGrantGeneration" asU64 with _ | generation
  · rfl
  rcases field fields "issuedAt" asU64 with _ | issuedAt
  · rfl
  rcases field fields "expiresAt" asU64 with _ | expiresAt
  · rfl
  rcases field fields "nonce" asStr with _ | nonce
  · rfl
  rfl

theorem readAttach_covered (h : Members fields) :
    readAttach (coveredFields fields) = (readAttach fields).map AttachClaims.widened := by
  unfold readAttach
  rw [field_covers asStr_covers h, field_covers asStr_covers h, field_covers asStr_covers h,
    fieldOr_covers asU64_covers h, field_covers asU64_covers h, field_covers asU64_covers h,
    field_covers (asVec_covers (asVariant_covers rightNamed)) h, field_covers asU64_covers h,
    field_covers asU64_covers h, fieldOr_covers asFace_covers h]
  simp only [Option.map_id, id_eq]
  rcases field fields "audienceCellBootId" asStr with _ | audience
  · rfl
  rcases field fields "clientId" asStr with _ | clientId
  · rfl
  rcases field fields "sessionId" asStr with _ | sessionId
  · rfl
  rcases fieldOr fields "leaseEpoch" asU64 with _ | leaseEpoch
  · rfl
  rcases field fields "routeRevision" asU64 with _ | routeRevision
  · rfl
  rcases field fields "grantGeneration" asU64 with _ | generation
  · rfl
  rcases field fields "rights" (asVec (asVariant rightNamed)) with _ | rights
  · rfl
  rcases field fields "issuedAt" asU64 with _ | issuedAt
  · rfl
  rcases field fields "expiresAt" asU64 with _ | expiresAt
  · rfl
  rcases fieldOr fields "face" asFace with _ | face
  · rfl
  rfl

structure Value where
  json : Json
  valid : Valid InRange json

/-- What a signature covers: a header and claims, both objects. -/
structure GrantBody where
  header : List (String × Json)
  claims : List (String × Json)
  header_members : Members header
  claims_members : Members claims

def GrantBody.value (b : GrantBody) : Json :=
  .obj [("protected", .obj b.header), ("claims", .obj b.claims)]

def GrantBody.signingInput (b : GrantBody) : String := canonicalJson b.value

theorem GrantBody.valid (b : GrantBody) : Valid InRange b.value := by
  have hkeys : (["protected", "claims"] : List String).Nodup := by decide
  refine .obj _ hkeys ?_
  intro e he
  rcases mem_cons.mp he with rfl | he
  · exact .obj _ b.header_members.keys b.header_members.valid
  · obtain rfl := mem_singleton.mp he
    exact .obj _ b.claims_members.keys b.claims_members.valid

theorem covered_of_signingInput {b b' : GrantBody} (h : b.signingInput = b'.signingInput) :
    coveredFields b.claims = coveredFields b'.claims := by
  have hsame := (canonicalJson_eq_iff b.valid b'.valid).mp h
  have hwide : ∀ c : GrantBody, Valid (fun _ => True) (widened c.value) := fun c =>
    c.valid.mapInts fun _ _ => trivial
  have hsorted := (same_iff_sorted keyOrder (hwide b) (hwide b')).mp hsame
  have hmembers : ∀ c : GrantBody,
      Members [("protected", .obj c.header), ("claims", .obj c.claims)] := by
    intro c
    cases c.valid with
    | obj _ hkeys hall => exact ⟨hkeys, hall⟩
  have hobj : ∀ c : GrantBody, covered c.value =
      .obj (coveredFields [("protected", .obj c.header), ("claims", .obj c.claims)]) := fun c =>
    covered_obj _
  have hfields : coveredFields [("protected", .obj b.header), ("claims", .obj b.claims)] =
      coveredFields [("protected", .obj b'.header), ("claims", .obj b'.claims)] :=
    Json.obj.inj ((hobj b).symm.trans (hsorted.trans (hobj b')))
  have hclaims : ∀ c : GrantBody,
      get (coveredFields [("protected", .obj c.header), ("claims", .obj c.claims)]) "claims" =
        some (.obj (coveredFields c.claims)) := by
    intro c
    rw [get_covered (hmembers c).keys, ← covered_obj]
    rfl
  have hget := hclaims b
  rw [hfields, hclaims b'] at hget
  exact (Json.obj.inj (some.inj hget)).symm

/-- No number past `2 ^ 53`. -/
def TransportClaims.Exact (c : TransportClaims) : Prop :=
  c.transportGrantGeneration ≤ 2 ^ 53 ∧ c.issuedAt ≤ 2 ^ 53 ∧ c.expiresAt ≤ 2 ^ 53

def AttachClaims.Exact (c : SessionAttachGrantClaims) : Prop :=
  (∀ n ∈ c.leaseEpoch, n ≤ 2 ^ 53) ∧ c.routeRevision ≤ 2 ^ 53 ∧ c.grantGeneration ≤ 2 ^ 53 ∧
    c.issuedAt ≤ 2 ^ 53 ∧ c.expiresAt ≤ 2 ^ 53

theorem TransportClaims.widened_of_exact {c : TransportClaims} (h : TransportClaims.Exact c) :
    TransportClaims.widened c = c := by
  obtain ⟨hgeneration, hissued, hexpires⟩ := h
  rw [TransportClaims.widened, toDouble_small hgeneration, toDouble_small hissued,
    toDouble_small hexpires]

theorem AttachClaims.widened_of_exact {c : SessionAttachGrantClaims}
    (h : AttachClaims.Exact c) : AttachClaims.widened c = c := by
  obtain ⟨hepoch, hroute, hgeneration, hissued, hexpires⟩ := h
  have hlease : c.leaseEpoch.map toDouble = c.leaseEpoch := by
    cases hc : c.leaseEpoch with
    | none => rfl
    | some n => exact congrArg some (toDouble_small (hepoch n hc))
  rw [AttachClaims.widened, hlease, toDouble_small hroute, toDouble_small hgeneration,
    toDouble_small hissued, toDouble_small hexpires]

/-- No integer past `2 ^ 53`, above or below. -/
def Small (n : Int) : Prop := n.natAbs ≤ 2 ^ 53

theorem widened_of_small (h : Valid Small v) : widened v = v := by
  refine mapInts_of_fixed (fun n hn => ?_) h
  have hn' : n.natAbs ≤ 2 ^ 53 := hn
  rw [asF64, toDouble_small hn', Int.sign_mul_natAbs]

/-- The canonical text tells values apart up to the order of members and the doubles of
integers: exactly, where no integer is past `2 ^ 53`.  White space and the order of members
do not change it.  Grants with one signed text are read as the same claims, up to the
doubles of their numbers.  The writer in JavaScript signs the same bytes. -/
theorem canonicalJson_unambiguous :
    (∀ v w : Value,
      canonicalJson v.json = canonicalJson w.json ↔ Same (widened v.json) (widened w.json)) ∧
    (∀ v w : Value, Same v.json w.json → canonicalJson v.json = canonicalJson w.json) ∧
    (∀ v w : Value, Valid Small v.json → Valid Small w.json →
      canonicalJson v.json = canonicalJson w.json → Same v.json w.json) ∧
    (∀ (v w : Value) (text text' : List Char), Spells quoting text v.json →
      Spells quoting text' w.json → Respaced quoting text text' →
        canonicalJson v.json = canonicalJson w.json) ∧
    (∀ b b' : GrantBody, b.signingInput = b'.signingInput →
      (readTransport b.claims).map TransportClaims.widened =
          (readTransport b'.claims).map TransportClaims.widened ∧
        (readAttach b.claims).map AttachClaims.widened =
          (readAttach b'.claims).map AttachClaims.widened ∧
        (∀ c c', readTransport b.claims = some c → readTransport b'.claims = some c' →
          TransportClaims.Exact c → TransportClaims.Exact c' → c = c') ∧
        (∀ c c', readAttach b.claims = some c → readAttach b'.claims = some c' →
          AttachClaims.Exact c → AttachClaims.Exact c' → c = c')) ∧
    (∀ v w : Value, Same v.json w.json →
      Contracts.utf8 (Contracts.canonicalJson (Contracts.read w.json)) =
        (canonicalJson v.json).toUTF8) := by
  have hiff : ∀ v w : Value,
      canonicalJson v.json = canonicalJson w.json ↔ Same (widened v.json) (widened w.json) :=
    fun v w => canonicalJson_eq_iff v.valid w.valid
  have horder : ∀ v w : Value, Same v.json w.json →
      canonicalJson v.json = canonicalJson w.json := fun v w h =>
    (hiff v w).mpr (h.mapInts asF64)
  refine ⟨hiff, horder, ?_, ?_, ?_, ?_⟩
  · intro v w hv hw h
    have hsame := (hiff v w).mp h
    rwa [widened_of_small hv, widened_of_small hw] at hsame
  · intro v w text text' hv hw hspace
    rw [spells_respaced quoting v.valid w.valid hspace hv hw]
  · intro b b' h
    have hcovered := covered_of_signingInput h
    have htransport := readTransport_covered b.claims_members
    have hattach := readAttach_covered b.claims_members
    rw [hcovered, readTransport_covered b'.claims_members] at htransport
    rw [hcovered, readAttach_covered b'.claims_members] at hattach
    refine ⟨htransport.symm, hattach.symm, ?_, ?_⟩
    · intro c c' hc hc' hexact hexact'
      rw [hc, hc'] at htransport
      have heq := Option.some.inj htransport
      rw [TransportClaims.widened_of_exact hexact, TransportClaims.widened_of_exact hexact'] at heq
      exact heq.symm
    · intro c c' hc hc' hexact hexact'
      rw [hc, hc'] at hattach
      have heq := Option.some.inj hattach
      rw [AttachClaims.widened_of_exact hexact, AttachClaims.widened_of_exact hexact'] at heq
      exact heq.symm
  · intro v w h
    rw [horder v w h, Contracts.utf8, Contracts.canonicalJson_read w.valid, Utf16.decode_encode]
    rfl

theorem valid_pair {k k' : String} (hne : k ≠ k') {m n : Int} (hm : InRange m)
    (hn : InRange n) : Valid InRange (.obj [(k, .int m), (k', .int n)]) := by
  refine .obj _ (by simpa using hne) fun e he => ?_
  rcases mem_cons.mp he with rfl | he
  · exact .int m hm
  · obtain rfl := mem_singleton.mp he
    exact .int n hn

theorem canonicalJson_unambiguous_reordered :
    canonicalJson (.obj [("b", .int 2), ("a", .int 1)]) =
      canonicalJson (.obj [("a", .int 1), ("b", .int 2)]) := by
  have hone : InRange 1 := ⟨by omega, by omega⟩
  have htwo : InRange 2 := ⟨by omega, by omega⟩
  exact canonicalJson_unambiguous.2.1 ⟨_, valid_pair (by decide) htwo hone⟩
    ⟨_, valid_pair (by decide) hone htwo⟩ (.members (.swap _ _ []))

/-! ## Past `2 ^ 53` -/

def claimsOf (generation : Nat) : List (String × Json) :=
  [("audienceCellBootId", .str "cell-boot-A"), ("clientId", .str "win:p#d~e"),
    ("connectionSetId", .str "win:p#d~e@cell-boot-A"),
    ("allowedChannels", .arr [.str "control", .str "frames"]),
    ("transportGrantGeneration", .int generation), ("issuedAt", .int 1000),
    ("expiresAt", .int 61000), ("nonce", .str "n")]

theorem members_claimsOf {generation : Nat} (h : generation < 2 ^ 64) :
    Members (claimsOf generation) where
  keys := by
    show (["audienceCellBootId", "clientId", "connectionSetId", "allowedChannels",
      "transportGrantGeneration", "issuedAt", "expiresAt", "nonce"] : List String).Nodup
    decide
  valid := by
    have hint : ∀ n : Nat, n < 2 ^ 64 → Valid InRange (.int n) := fun n hn =>
      .int _ ⟨by omega, by omega⟩
    have hchannels : Valid InRange (.arr [.str "control", .str "frames"]) := by
      refine .arr _ fun v hv => ?_
      simp only [mem_cons, not_mem_nil, or_false] at hv
      rcases hv with rfl | rfl
      · exact .str _
      · exact .str _
    intro e he
    simp only [claimsOf, mem_cons, not_mem_nil, or_false] at he
    rcases he with rfl | rfl | rfl | rfl | rfl | rfl | rfl | rfl
    · exact .str _
    · exact .str _
    · exact .str _
    · exact hchannels
    · exact hint _ h
    · exact hint 1000 (by decide)
    · exact hint 61000 (by decide)
    · exact .str _

def bodyOf (generation : Nat) (h : generation < 2 ^ 64) : GrantBody where
  header := []
  claims := claimsOf generation
  header_members := ⟨List.nodup_nil, fun _ he => by cases he⟩
  claims_members := members_claimsOf h

theorem generation_of_same {m n : Nat} (hm : m < 2 ^ 64) (hn : n < 2 ^ 64)
    (h : Same (bodyOf m hm).value (bodyOf n hn).value) : toDouble m = toDouble n := by
  have htext : (bodyOf m hm).signingInput = (bodyOf n hn).signingInput :=
    (canonicalJson_eq_iff (GrantBody.valid _) (GrantBody.valid _)).mpr (h.mapInts asF64)
  have hcovered := covered_of_signingInput htext
  have hread := readTransport_covered (bodyOf m hm).claims_members
  rw [hcovered, readTransport_covered (bodyOf n hn).claims_members] at hread
  have hgeneration := congrArg
    (fun c : Option TransportClaims => c.map fun c => c.transportGrantGeneration) hread
  exact (some.inj hgeneration).symm

/-- Two grants a generation apart, with one signed text between them. -/
theorem generations_share_text :
    ∃ b b' : GrantBody, b.signingInput = b'.signingInput ∧ ¬ Same b.value b'.value ∧
      (readTransport b.claims).map (fun c => c.transportGrantGeneration) = some (2 ^ 53) ∧
      (readTransport b'.claims).map (fun c => c.transportGrantGeneration) =
        some (2 ^ 53 + 1) := by
  refine ⟨bodyOf (2 ^ 53) (by decide), bodyOf (2 ^ 53 + 1) (by decide), ?_, ?_, rfl, rfl⟩
  · refine (canonicalJson_eq_iff (GrantBody.valid _) (GrantBody.valid _)).mpr ?_
    exact .refl _
  · -- rewritten to small numbers, the two would still be the same
    intro h
    have hsmall := h.mapInts fun n => if n = 2 ^ 53 then 0 else if n = 2 ^ 53 + 1 then 1 else n
    have hzero : toDouble 0 = toDouble 1 :=
      generation_of_same (m := 0) (n := 1) (by decide) (by decide) hsmall
    rw [toDouble_small (by decide), toDouble_small (by decide)] at hzero
    cases hzero

end VibeField.Tp.Jcs
