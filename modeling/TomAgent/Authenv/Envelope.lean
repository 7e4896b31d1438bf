import Mathlib.Data.List.AList
import Mathlib.Data.List.Sort
import TomAgent.Core.PrefixCode

/-!
# The command envelope and its canonical bytes

`CanonicalBytes` concatenates length-prefixed fields, the sorted parameters
behind their number, and fixed-width integers.  Strings of the source are byte
strings here.  Parameters are an association list without repeated keys whose
order is the iteration order of the Go map.
-/

namespace TomAgent.Authenv

open BigEndian PrefixCode

abbrev Params := AList (fun _ : Bytes => Bytes)

structure CommandEnvelope where
  cmdId : Bytes
  action : Bytes
  params : Params
  timeoutSec : UInt32
  issuedAt : Int64
  expiresAt : Int64
  nonce : Bytes
  signature : Bytes

def magic : Bytes := [84, 65, 73, 45, 67, 77, 68, 45, 118, 49]

def writeField (b : Bytes) : Bytes := encode 4 b.length ++ b

/-- `env.Params[k]`, which is empty for an absent key. -/
def paramValue (params : Params) (k : Bytes) : Bytes := (params.lookup k).getD []

/-- The keys in the order of `sort.Strings`, which compares bytes. -/
def sortedKeys (params : Params) : List Bytes := params.keys.insertionSort (· ≤ ·)

def canonicalBytes (env : CommandEnvelope) : Bytes :=
  let keys := sortedKeys env.params
  magic ++ writeField env.cmdId ++ writeField env.action ++
    encode 4 keys.length ++
    keys.flatMap (fun k => writeField k ++ writeField (paramValue env.params k)) ++
    encode 8 env.timeoutSec.toUInt64.toNat ++
    encode 8 env.issuedAt.toUInt64.toNat ++
    encode 8 env.expiresAt.toUInt64.toNat ++
    writeField env.nonce

/-! ## Parameters as a finite map -/

def sortedParams (params : Params) : List (Bytes × Bytes) :=
  (sortedKeys params).map fun k => (k, paramValue params k)

theorem mem_sortedKeys {params : Params} {k : Bytes} : k ∈ sortedKeys params ↔ k ∈ params := by
  rw [sortedKeys, List.mem_insertionSort, AList.mem_keys]

theorem lookup_of_mem {params : Params} {k : Bytes} (h : k ∈ params) :
    params.lookup k = some (paramValue params k) := by
  unfold paramValue
  cases hk : params.lookup k with
  | none => exact absurd h (AList.lookup_eq_none.mp hk)
  | some v => rfl

/-- The sorted keys depend on the set of keys only. -/
theorem sortedKeys_congr {p q : Params} (h : ∀ k, k ∈ p ↔ k ∈ q) : sortedKeys p = sortedKeys q := by
  unfold sortedKeys
  apply List.Perm.eq_of_pairwise' (r := (· ≤ ·))
  · exact List.pairwise_insertionSort _ _
  · exact List.pairwise_insertionSort _ _
  · apply (List.perm_insertionSort _ _).trans
    apply List.Perm.trans _ (List.perm_insertionSort _ _).symm
    rw [List.perm_ext_iff_of_nodup p.keys_nodup q.keys_nodup]
    exact h

/-- The written parameters determine the map and are determined by it, whatever
the iteration order. -/
theorem sortedParams_eq_iff {p q : Params} :
    sortedParams p = sortedParams q ↔ ∀ k, p.lookup k = q.lookup k := by
  constructor
  · intro heq k
    have hkeys : sortedKeys p = sortedKeys q := by
      have hfst := congrArg (List.map Prod.fst) heq
      simpa [sortedParams, Function.comp_def] using hfst
    have hmem : k ∈ p ↔ k ∈ q := by rw [← mem_sortedKeys, hkeys, mem_sortedKeys]
    by_cases hk : k ∈ p
    · unfold sortedParams at heq
      rw [← hkeys] at heq
      have hpair := List.map_inj_left.mp heq k (mem_sortedKeys.mpr hk)
      rw [lookup_of_mem hk, lookup_of_mem (hmem.mp hk), (Prod.mk.inj hpair).2]
    · rw [AList.lookup_eq_none.mpr hk, AList.lookup_eq_none.mpr fun hq => hk (hmem.mpr hq)]
  · intro heq
    have hmem : ∀ k, k ∈ p ↔ k ∈ q := by
      intro k
      rw [← AList.lookup_isSome, heq k, AList.lookup_isSome]
    unfold sortedParams
    rw [sortedKeys_congr hmem]
    apply List.map_congr_left
    intro k _
    unfold paramValue
    rw [heq k]

/-! ## Injectivity -/

structure CommandEnvelope.Bounded (env : CommandEnvelope) : Prop where
  cmdId : env.cmdId.length < 2 ^ 32
  action : env.action.length < 2 ^ 32
  count : env.params.keys.length < 2 ^ 32
  key : ∀ k ∈ env.params, k.length < 2 ^ 32
  value : ∀ k ∈ env.params, (paramValue env.params k).length < 2 ^ 32
  nonce : env.nonce.length < 2 ^ 32

structure CommandEnvelope.Agrees (a b : CommandEnvelope) : Prop where
  cmdId : a.cmdId = b.cmdId
  action : a.action = b.action
  params : ∀ k, a.params.lookup k = b.params.lookup k
  timeoutSec : a.timeoutSec = b.timeoutSec
  issuedAt : a.issuedAt = b.issuedAt
  expiresAt : a.expiresAt = b.expiresAt
  nonce : a.nonce = b.nonce

def FieldFits (b : Bytes) : Prop := b.length < 256 ^ 4

theorem selfDelimiting_writeField : SelfDelimiting FieldFits writeField :=
  (selfDelimiting_bigEndian 4).prefixed

/-- What an envelope is written from, in the order of writing. -/
abbrev Fields := Bytes × Bytes × List (Bytes × Bytes) × Nat × Nat × Nat × Bytes

def CommandEnvelope.fields (env : CommandEnvelope) : Fields :=
  (env.cmdId, env.action, sortedParams env.params, env.timeoutSec.toUInt64.toNat,
    env.issuedAt.toUInt64.toNat, env.expiresAt.toUInt64.toNat, env.nonce)

def writeParams (params : List (Bytes × Bytes)) : Bytes :=
  encode 4 params.length ++ params.flatMap fun p => writeField p.1 ++ writeField p.2

def writeFields (f : Fields) : Bytes :=
  writeField f.1 ++ (writeField f.2.1 ++ (writeParams f.2.2.1 ++ (encode 8 f.2.2.2.1 ++
    (encode 8 f.2.2.2.2.1 ++ (encode 8 f.2.2.2.2.2.1 ++ writeField f.2.2.2.2.2.2)))))

theorem canonicalBytes_eq (env : CommandEnvelope) :
    canonicalBytes env = magic ++ writeFields env.fields := by
  simp [canonicalBytes, writeFields, writeParams, CommandEnvelope.fields, sortedParams,
    List.flatMap_map]

def FieldsFit (f : Fields) : Prop :=
  FieldFits f.1 ∧ FieldFits f.2.1 ∧
    (f.2.2.1.length < 256 ^ 4 ∧ ∀ p ∈ f.2.2.1, FieldFits p.1 ∧ FieldFits p.2) ∧
    f.2.2.2.1 < 256 ^ 8 ∧ f.2.2.2.2.1 < 256 ^ 8 ∧ f.2.2.2.2.2.1 < 256 ^ 8 ∧
    FieldFits f.2.2.2.2.2.2

theorem selfDelimiting_writeFields : SelfDelimiting FieldsFit writeFields := by
  have hfield := selfDelimiting_writeField
  have hlong := selfDelimiting_bigEndian 8
  have hparams := (selfDelimiting_bigEndian 4).counted (hfield.append hfield)
  exact hfield.append (hfield.append (hparams.append (hlong.append (hlong.append
    (hlong.append hfield)))))

theorem CommandEnvelope.Bounded.fieldsFit {env : CommandEnvelope} (h : env.Bounded) :
    FieldsFit env.fields := by
  have hcount : (sortedParams env.params).length < 256 ^ 4 := by
    simp only [sortedParams, sortedKeys, List.length_map, List.length_insertionSort]
    exact h.count
  have hparams : ∀ p ∈ sortedParams env.params, FieldFits p.1 ∧ FieldFits p.2 := by
    intro p hp
    rcases List.mem_map.mp hp with ⟨k, hk, rfl⟩
    have hmem := mem_sortedKeys.mp hk
    exact ⟨h.key k hmem, h.value k hmem⟩
  exact ⟨h.cmdId, h.action, ⟨hcount, hparams⟩, UInt64.toNat_lt _, UInt64.toNat_lt _,
    UInt64.toNat_lt _, h.nonce⟩

theorem timeout_inj {a b : UInt32} (h : a.toUInt64.toNat = b.toUInt64.toNat) : a = b := by
  rw [UInt32.toNat_toUInt64, UInt32.toNat_toUInt64] at h
  exact UInt32.toNat_inj.mp h

theorem timestamp_inj {a b : Int64} (h : a.toUInt64.toNat = b.toUInt64.toNat) : a = b := by
  have hbits : a.toUInt64 = b.toUInt64 := UInt64.toNat_inj.mp h
  exact congrArg Int64.ofUInt64 hbits

theorem fields_eq_iff {a b : CommandEnvelope} : a.fields = b.fields ↔ a.Agrees b := by
  constructor
  · intro heq
    simp only [CommandEnvelope.fields, Prod.mk.injEq] at heq
    rcases heq with ⟨hcmd, haction, hparams, htimeout, hissued, hexpires, hnonce⟩
    exact ⟨hcmd, haction, sortedParams_eq_iff.mp hparams, timeout_inj htimeout,
      timestamp_inj hissued, timestamp_inj hexpires, hnonce⟩
  · intro h
    unfold CommandEnvelope.fields
    rw [h.cmdId, h.action, sortedParams_eq_iff.mpr h.params, h.timeoutSec, h.issuedAt,
      h.expiresAt, h.nonce]

theorem canonicalBytes_inj {a b : CommandEnvelope} (ha : a.Bounded) (hb : b.Bounded) :
    canonicalBytes a = canonicalBytes b ↔ a.Agrees b := by
  rw [canonicalBytes_eq, canonicalBytes_eq, List.append_cancel_left_eq, ← fields_eq_iff]
  constructor
  · intro heq
    exact selfDelimiting_writeFields.inj ha.fieldsFit hb.fieldsFit heq
  · intro heq
    rw [heq]

/-! ## Signing -/

/-- Ed25519 as the module uses it: keys, signing and verification. -/
structure SignatureScheme where
  PrivateKey : Type
  PublicKey : Type
  publicKey : PrivateKey → PublicKey
  sign : PrivateKey → Bytes → Bytes
  verify : PublicKey → Bytes → Bytes → Bool

def signatureSize : Nat := 64

/-- The security of a key for the messages that occur.  No signature is accepted
for a second one of them; over all byte strings no scheme with signatures of
fixed size has this property. -/
structure SignatureScheme.Secure (S : SignatureScheme) (priv : S.PrivateKey)
    (messages : Set Bytes) : Prop where
  size : ∀ m, (S.sign priv m).length = signatureSize
  correct : ∀ m, S.verify (S.publicKey priv) m (S.sign priv m) = true
  unforgeable : ∀ m ∈ messages, ∀ m' ∈ messages,
    S.verify (S.publicKey priv) m' (S.sign priv m) = true → m' = m

def sign (S : SignatureScheme) (priv : S.PrivateKey) (env : CommandEnvelope) : CommandEnvelope :=
  { env with signature := S.sign priv (canonicalBytes env) }

def verify (S : SignatureScheme) (pub : S.PublicKey) (env : CommandEnvelope) : Except String Unit :=
  if env.signature.length ≠ signatureSize then .error "missing or malformed signature"
  else if S.verify pub (canonicalBytes env) env.signature = false then
    .error "signature verification failed"
  else .ok ()

theorem canonicalBytes_sign (S : SignatureScheme) (priv : S.PrivateKey) (env : CommandEnvelope) :
    canonicalBytes (sign S priv env) = canonicalBytes env := rfl

theorem verify_sign {S : SignatureScheme} {priv : S.PrivateKey} {messages : Set Bytes}
    (hS : S.Secure priv messages) (env : CommandEnvelope) :
    verify S (S.publicKey priv) (sign S priv env) = .ok () := by
  unfold verify
  rw [canonicalBytes_sign]
  simp [sign, hS.size, hS.correct]

theorem verify_moved_signature {S : SignatureScheme} {priv : S.PrivateKey} {messages : Set Bytes}
    (hS : S.Secure priv messages) {a b : CommandEnvelope} (ha : canonicalBytes a ∈ messages)
    (hb : canonicalBytes b ∈ messages) (hsig : b.signature = (sign S priv a).signature)
    (hne : canonicalBytes b ≠ canonicalBytes a) :
    verify S (S.publicKey priv) b = .error "signature verification failed" := by
  have hreject : S.verify (S.publicKey priv) (canonicalBytes b) b.signature = false := by
    cases hv : S.verify (S.publicKey priv) (canonicalBytes b) b.signature with
    | false => rfl
    | true =>
        rw [hsig] at hv
        exact absurd (hS.unforgeable _ ha _ hb hv) hne
  unfold verify
  rw [if_pos hreject, hsig]
  simp [sign, hS.size]

/-- Within the size limits two envelopes have the same canonical bytes exactly when they agree
on all signed fields, the parameters compared as finite maps.  Under a secure key a signed
envelope is accepted, and no envelope that carries its signature and differs in a signed field
is. -/
theorem canonical_encoding_authentic {a b : CommandEnvelope} (ha : a.Bounded) (hb : b.Bounded) :
    (canonicalBytes a = canonicalBytes b ↔ a.Agrees b) ∧
      ∀ (S : SignatureScheme) (priv : S.PrivateKey) (messages : Set Bytes),
        S.Secure priv messages → canonicalBytes a ∈ messages → canonicalBytes b ∈ messages →
          verify S (S.publicKey priv) (sign S priv a) = .ok () ∧
            (b.signature = (sign S priv a).signature → ¬ a.Agrees b →
              verify S (S.publicKey priv) b = .error "signature verification failed") := by
  refine ⟨canonicalBytes_inj ha hb, ?_⟩
  intro S priv messages hS hma hmb
  refine ⟨verify_sign hS a, ?_⟩
  intro hsig hdiffer
  apply verify_moved_signature hS hma hmb hsig
  intro heq
  exact hdiffer ((canonicalBytes_inj ha hb).mp heq.symm)

def sampleParams : Params := AList.singleton [97] [49]

def sampleEnvelope (nonce signature : Bytes) : CommandEnvelope :=
  ⟨[99, 109, 100, 45, 49], [112, 105, 110, 103], sampleParams, 30, 1784800000000, 1784800300000,
    nonce, signature⟩

theorem sampleEnvelope_bounded {nonce signature : Bytes} (h : nonce.length < 2 ^ 32) :
    (sampleEnvelope nonce signature).Bounded := by
  have hkey : ∀ k ∈ sampleParams, k = [97] := fun k hk => List.mem_singleton.mp hk
  refine ⟨?_, ?_, ?_, ?_, ?_, h⟩
  · simp [sampleEnvelope]
  · simp [sampleEnvelope]
  · change sampleParams.keys.length < 2 ^ 32
    decide
  · intro k hk
    rw [hkey k hk]
    decide
  · intro k hk
    rw [hkey k hk]
    change (paramValue sampleParams [97]).length < 2 ^ 32
    decide

/-- A scheme whose signature is the last 64 bytes of the message. -/
def tailScheme : SignatureScheme where
  PrivateKey := Unit
  PublicKey := Unit
  publicKey := id
  sign _ m := encode 64 (decode m)
  verify _ m signature := signature = encode 64 (decode m)

theorem verify_tail (env : CommandEnvelope) :
    verify tailScheme () (sign tailScheme () env) = .ok () := by
  have hsize : (sign tailScheme () env).signature.length = signatureSize := encode_length 64 _
  have haccept : tailScheme.verify () (canonicalBytes (sign tailScheme () env))
      (sign tailScheme () env).signature = true := decide_eq_true rfl
  unfold verify
  rw [if_neg (not_not_intro hsize), haccept]
  rfl

theorem tailScheme_secure {x y : Bytes} (h : encode 64 (decode x) ≠ encode 64 (decode y)) :
    tailScheme.Secure () {x, y} := by
  refine ⟨?_, ?_, ?_⟩
  · intro m
    exact encode_length 64 _
  · intro m
    exact decide_eq_true rfl
  · intro m hm m' hm' hv
    have hsame : encode 64 (decode m) = encode 64 (decode m') := of_decide_eq_true hv
    rcases hm with rfl | rfl
    · rcases hm' with rfl | rfl
      · rfl
      · exact absurd hsame h
    · rcases hm' with rfl | rfl
      · exact absurd hsame.symm h
      · rfl

/-- Two envelopes that differ in the nonce, the second with the signature of the first. -/
theorem canonical_encoding_authentic_nonce :
    let a := sampleEnvelope [1] []
    let b := sampleEnvelope [2] (sign tailScheme () a).signature
    (canonicalBytes a = canonicalBytes b ↔ a.Agrees b) ∧
      verify tailScheme () (sign tailScheme () a) = .ok () ∧
      verify tailScheme () b = .error "signature verification failed" := by
  intro a b
  have ha : a.Bounded := sampleEnvelope_bounded (by decide)
  have hb : b.Bounded := sampleEnvelope_bounded (by decide)
  have htail : encode 64 (decode (canonicalBytes a)) ≠ encode 64 (decode (canonicalBytes b)) := by
    decide +kernel
  have hboth := canonical_encoding_authentic ha hb
  have hsigned := hboth.2 tailScheme () {canonicalBytes a, canonicalBytes b}
    (tailScheme_secure htail) (Or.inl rfl) (Or.inr rfl)
  refine ⟨hboth.1, hsigned.1, hsigned.2 rfl ?_⟩
  intro hagrees
  exact absurd hagrees.nonce (by decide)

end TomAgent.Authenv
