import TomAgent.Connector.Identity
import TomAgent.Core.Base64
import TomAgent.Core.FileOps

/-!
# Writing the key and the certificate

Registration and rotation end in `persistPKI`, which replaces `agent.key`,
`agent.crt` and `ca.crt` one after the other, each by a temporary file and a
rename.  Every single file is replaced atomically, the pair of key and certificate
is not.  The modes of the files are left out.
-/

namespace TomAgent.Register

open Connector FileOps JsonText

/-! ## PEM files -/

/-- `pem.EncodeToMemory` of a block without headers: base64 in lines of 64. -/
def encodeToMemory (type : String) (bytes : Bytes) : Bytes :=
  utf8 (("-----BEGIN " ++ type ++ "-----\n").toList ++
    (((Base64.encode bytes).toChunks 64).flatMap (· ++ ['\n']) ++
      ("-----END " ++ type ++ "-----\n").toList))

def pkiFiles (keyDER certDER caDER : Bytes) : List (String × Bytes) :=
  [("agent.key", encodeToMemory "PRIVATE KEY" keyDER),
    ("agent.crt", encodeToMemory "CERTIFICATE" certDER),
    ("ca.crt", encodeToMemory "CERTIFICATE" caDER)]

section Persist

variable {x : X509} (marshalPKCS8PrivateKey : x.PrivateKey → Option Bytes)

/-- The operations of `persistPKI`; a key that cannot be encoded ends it early. -/
def persistPKI (priv : x.PrivateKey) (certDER caDER : Bytes) : List Op :=
  .mkdirAll :: match marshalPKCS8PrivateKey priv with
    | none => []
    | some keyDER => (pkiFiles keyDER certDER caDER).flatMap fun f => replaceFile f.1 f.2

def keyPair (d : Dir) : Option Bytes × Option Bytes := (d.lookup "agent.key", d.lookup "agent.crt")

def Matching (pair : Option Bytes × Option Bytes) : Prop :=
  ∃ priv keyDER certDER, marshalPKCS8PrivateKey priv = some keyDER ∧
    pair = (some (encodeToMemory "PRIVATE KEY" keyDER), some (encodeToMemory "CERTIFICATE" certDER)) ∧
    x.certificateKey certDER = some (x.publicKey priv)

def newPair (priv : x.PrivateKey) (certDER : Bytes) : Option (Option Bytes × Option Bytes) :=
  (marshalPKCS8PrivateKey priv).map fun keyDER =>
    (some (encodeToMemory "PRIVATE KEY" keyDER), some (encodeToMemory "CERTIFICATE" certDER))

/-- The key changes with the third operation and the certificate with the fifth. -/
theorem keyPair_interrupted {priv : x.PrivateKey} {certDER : Bytes}
    {new : Option Bytes × Option Bytes}
    (hnew : newPair marshalPKCS8PrivateKey priv certDER = some new) (caDER : Bytes) (d : Dir)
    (done : Nat) (ending : Ending) :
    keyPair (interrupted d (persistPKI marshalPKCS8PrivateKey priv certDER caDER) done ending) =
      (if done < 3 then (keyPair d).1 else new.1, if done < 5 then (keyPair d).2 else new.2) := by
  obtain ⟨keyDER, hkey, rfl⟩ := Option.map_eq_some_iff.mp hnew
  have hops : persistPKI marshalPKCS8PrivateKey priv certDER caDER =
      [.mkdirAll] ++ (replaceFile "agent.key" (encodeToMemory "PRIVATE KEY" keyDER) ++
        (replaceFile "agent.crt" (encodeToMemory "CERTIFICATE" certDER) ++
          replaceFile "ca.crt" (encodeToMemory "CERTIFICATE" caDER))) := by
    simp [persistPKI, hkey, pkiFiles]
  have hfirst := @lookup_interrupted_replaceFile d "agent.key" [.mkdirAll]
    (replaceFile "agent.crt" (encodeToMemory "CERTIFICATE" certDER) ++
      replaceFile "ca.crt" (encodeToMemory "CERTIFICATE" caDER))
    (by simp [Op.Touches]) (by simp [Op.Touches, replaceFile])
    (encodeToMemory "PRIVATE KEY" keyDER) done ending
  have hsecond := @lookup_interrupted_replaceFile d "agent.crt"
    ([.mkdirAll] ++ replaceFile "agent.key" (encodeToMemory "PRIVATE KEY" keyDER))
    (replaceFile "ca.crt" (encodeToMemory "CERTIFICATE" caDER))
    (by simp [Op.Touches, replaceFile]) (by simp [Op.Touches, replaceFile])
    (encodeToMemory "CERTIFICATE" certDER) done ending
  rw [List.append_assoc] at hsecond
  rw [hops]
  exact Prod.ext hfirst hsecond

theorem keyPair_unmarshalled {priv : x.PrivateKey} {certDER : Bytes}
    (hnew : newPair marshalPKCS8PrivateKey priv certDER = none) (caDER : Bytes) (d : Dir)
    (done : Nat) (ending : Ending) :
    keyPair (interrupted d (persistPKI marshalPKCS8PrivateKey priv certDER caDER) done ending) =
      keyPair d := by
  have hkey : marshalPKCS8PrivateKey priv = none := Option.map_eq_none_iff.mp hnew
  rw [persistPKI, hkey]
  exact Prod.ext (lookup_interrupted (by simp [Op.Touches]) done ending)
    (lookup_interrupted (by simp [Op.Touches]) done ending)

theorem matching_newPair {priv : x.PrivateKey} {certDER : Bytes}
    (hcert : x.certificateKey certDER = some (x.publicKey priv))
    {new : Option Bytes × Option Bytes}
    (hnew : newPair marshalPKCS8PrivateKey priv certDER = some new) :
    Matching marshalPKCS8PrivateKey new := by
  obtain ⟨keyDER, hkey, rfl⟩ := Option.map_eq_some_iff.mp hnew
  exact ⟨priv, keyDER, certDER, hkey, rfl, hcert⟩

/-- The directory holds a matching pair, and `persistPKI` ends before any of its operations,
because that one fails or because the process stops.  The pair on disk is then the old one or
the new one, and it matches, if and only if the end is not between the renaming of the key and
that of the certificate, or one of the two files keeps its contents. -/
theorem pki_pair_iff {d : Dir} (hold : Matching marshalPKCS8PrivateKey (keyPair d))
    {priv : x.PrivateKey} {certDER : Bytes}
    (hcert : x.certificateKey certDER = some (x.publicKey priv)) (caDER : Bytes) (done : Nat)
    (ending : Ending) :
    let pair := keyPair (interrupted d
      (persistPKI marshalPKCS8PrivateKey priv certDER caDER) done ending)
    Matching marshalPKCS8PrivateKey pair ∧
        (pair = keyPair d ∨ newPair marshalPKCS8PrivateKey priv certDER = some pair) ↔
      done < 3 ∨ 5 ≤ done ∨ ∀ new, newPair marshalPKCS8PrivateKey priv certDER = some new →
        new.1 = (keyPair d).1 ∨ new.2 = (keyPair d).2 := by
  intro pair
  cases hnew : newPair marshalPKCS8PrivateKey priv certDER with
  | none =>
      have hpair : pair = keyPair d := keyPair_unmarshalled _ hnew caDER d done ending
      rw [hpair]
      simp [hold]
  | some new =>
      have hmatching := matching_newPair _ hcert hnew
      have hpair : pair = _ := keyPair_interrupted _ hnew caDER d done ending
      have hforall : (∀ n, some new = some n → n.1 = (keyPair d).1 ∨ n.2 = (keyPair d).2) ↔
          (new.1 = (keyPair d).1 ∨ new.2 = (keyPair d).2) := by simp
      rw [hforall, hpair]
      by_cases hbefore : done < 3
      · have hkept : done < 5 := by omega
        simp [hbefore, hkept, hold]
      · by_cases hafter : 5 ≤ done
        · have hgone : ¬ done < 5 := by omega
          simp [hbefore, hafter, hgone, hmatching]
        · -- the new key is in place, the old certificate still there
          have hkept : done < 5 := by omega
          rw [if_neg hbefore, if_pos hkept]
          simp only [hbefore, hafter, false_or]
          constructor
          · rintro ⟨-, heq | heq⟩
            · exact Or.inl (Prod.ext_iff.mp heq).1
            · exact Or.inr (Prod.ext_iff.mp (Option.some.inj heq)).2
          · rintro (heq | heq)
            · rw [heq]
              exact ⟨hold, Or.inl rfl⟩
            · rw [← heq]
              exact ⟨hmatching, Or.inr rfl⟩

end Persist

/-! ## A rotation that is interrupted -/

def marshalByte (key : UInt8) : Option Bytes := some [key]

def pkiOnDisk (key crt : UInt8) : Dir :=
  ((∅ : Dir).insert "agent.key" (encodeToMemory "PRIVATE KEY" [key])).insert "agent.crt"
    (encodeToMemory "CERTIFICATE" [crt])

theorem matching_pkiOnDisk (key : UInt8) :
    Matching (x := byteX509) marshalByte (keyPair (pkiOnDisk key key)) :=
  ⟨key, [key], [key], rfl, rfl, rfl⟩

theorem pki_pair_iff_before_rename :
    Matching (x := byteX509) marshalByte (keyPair (interrupted (pkiOnDisk 1 1)
      (persistPKI (x := byteX509) marshalByte (2 : UInt8) [2] [9]) 2 .stops)) := by
  have hcert : byteX509.certificateKey [2] = some (byteX509.publicKey (2 : UInt8)) := rfl
  have hiff := pki_pair_iff (x := byteX509) marshalByte (matching_pkiOnDisk 1) hcert [9] 2 .stops
  exact (hiff.mpr (Or.inl (by decide))).1

/-- The process stops between the two renamings: the new key and the old certificate. -/
theorem pki_pair_torn :
    Matching (x := byteX509) marshalByte (keyPair (pkiOnDisk 1 1)) ∧
      keyPair (interrupted (pkiOnDisk 1 1)
          (persistPKI (x := byteX509) marshalByte (2 : UInt8) [2] [9]) 3 .stops) =
        keyPair (pkiOnDisk 2 1) ∧
      keyPair (pkiOnDisk 2 1) ≠ keyPair (pkiOnDisk 1 1) ∧
      keyPair (pkiOnDisk 2 1) ≠ keyPair (pkiOnDisk 2 2) :=
  ⟨matching_pkiOnDisk 1, by decide +kernel, by decide +kernel, by decide +kernel⟩

end TomAgent.Register
