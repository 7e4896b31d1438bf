import TomAgent.Core.Base64
import TomAgent.Core.Decimal
import TomAgent.Core.JsonText

/-!
# Passwords, tokens and one-time codes

The hash functions are parameters.  Everything the package computes around them is spelled
out: the stored form of a password, the hash of a session token, and the one-time code of a
secret for a step of thirty seconds.
-/

namespace TomAgent.Iam

/-- The functions of Go's crypto packages; the lengths of the digests are in the types. -/
structure Primitives where
  hmacSha1 : (key message : Bytes) → Vector UInt8 20
  sha256 : Bytes → Vector UInt8 32
  /-- `none` when the package refuses the parameters. -/
  pbkdf2Sha256 : (password salt : Bytes) → (iterations keyBytes : Nat) → Option Bytes

/-- What `rand.Read` fills a buffer from; `none` when it fails. -/
abbrev Random := Option (Vector UInt8 32)

def Random.bytes (random : Random) (n : Nat) : Option Bytes :=
  random.map fun block => block.toList.take n

abbrev Text := List Char

/-! ## Base32 without padding -/

namespace Base32

def alphabet : List Char := "ABCDEFGHIJKLMNOPQRSTUVWXYZ234567".toList

def encodeGroup (bytes : Bytes) : Text :=
  let count := (bytes.length * 8 + 4) / 5
  let n := BigEndian.decode bytes * 2 ^ (count * 5 - bytes.length * 8)
  (List.range count).map fun i => alphabet.getD (n / 32 ^ (count - 1 - i) % 32) 'A'

def encode : Bytes → Text
  | a :: b :: c :: d :: e :: rest => encodeGroup [a, b, c, d, e] ++ encode rest
  | last => encodeGroup last

/-- At most eight symbols.  The decoder says nothing about a last group of one, three or six
symbols and takes no byte from it. -/
def decodeGroup (symbols : List Nat) : Bytes :=
  let bits := symbols.length * 5
  if symbols.length ∈ [2, 4, 5, 7, 8] then
    BigEndian.encode (bits / 8) (symbols.foldl (fun n d => n * 32 + d) 0 / 2 ^ (bits % 8))
  else []

def decodeGroups : List Nat → Bytes
  | a :: b :: c :: d :: e :: f :: g :: h :: rest =>
      decodeGroup [a, b, c, d, e, f, g, h] ++ decodeGroups rest
  | last => decodeGroup last

def decodeString (text : Text) : Option Bytes :=
  ((text.filter fun c => c ≠ '\n' ∧ c ≠ '\r').mapM fun c => alphabet.idxOf? c).map decodeGroups

end Base32

/-! ## One-time codes -/

def totpStepSeconds : Int := 30
def totpDigits : Nat := 6
def secretBytes : Nat := 20

/-- The offsets of the steps a code is compared with, `-totpWindow` to `totpWindow`. -/
def totpWindow : List Int := [-1, 0, 1]

def generateSecret (random : Random) : Option Text := (random.bytes secretBytes).map Base32.encode

abbrev Time := Int

def Time.unix (instant : Time) : Int := instant.fdiv 1000000000

def toUint64 (i : Int) : Nat := (i % 2 ^ 64).toNat

namespace Primitives

variable (c : Primitives)

/-- The secrets in the table are base32, so the upper case of other alphabets does not matter. -/
def codeAt (secret : Text) (counter : Nat) : Option Text :=
  (Base32.decodeString (secret.map Char.toUpper)).map fun key =>
    let sum := c.hmacSha1 key (BigEndian.encode 8 counter)
    let off := sum[19].toNat % 16
    let v := BigEndian.decode ((sum.toList.drop off).take 4) % 2 ^ 31
    (Nat.toDigits 10 (v % 1000000)).leftpad totpDigits '0'

def verifyFrom (secret code : Text) (counter : Nat) : List Int → Bool
  | [] => false
  | w :: ws =>
      -- step zero has no step before it
      if counter = 0 ∧ w < 0 then verifyFrom secret code counter ws
      else
        match c.codeAt secret (toUint64 (counter + w)) with
        | none => false
        | some want => if want = code then true else verifyFrom secret code counter ws

def verify (secret code : Text) (instant : Time) : Bool :=
  if (JsonText.utf8 code).length ≠ totpDigits then false
  else c.verifyFrom secret code (toUint64 (instant.unix.tdiv totpStepSeconds)) totpWindow

end Primitives

/-! ## Authenticator links -/

def hexByte (b : UInt8) : Text :=
  ['%', (Nat.digitChar (b.toNat / 16)).toUpper, (Nat.digitChar (b.toNat % 16)).toUpper]

/-- `url.PathEscape` and `url.QueryEscape` differ in what they let stand. -/
def escapeUrl (stands : Char → Bool) (text : Text) : Text :=
  text.flatMap fun c =>
    if c.isAlphanum ∨ c ∈ ['-', '_', '.', '~'] ∨ stands c then [c]
    else (JsonText.utf8 [c]).flatMap hexByte

def pathEscape : Text → Text := escapeUrl fun c => decide (c ∈ ['$', '&', '+', '=', ':', '@'])

def queryEscape (text : Text) : Text :=
  (escapeUrl (fun c => c = ' ') text).map fun c => if c = ' ' then '+' else c

/-- The query parameters stand in alphabetic order. -/
def otpauthUrl (issuer username : String) (secret : Text) : Text :=
  "otpauth://totp/".toList ++ pathEscape issuer.toList ++ ':' :: pathEscape username.toList ++
    "?algorithm=SHA1&digits=6&issuer=".toList ++ queryEscape issuer.toList ++
    "&period=30&secret=".toList ++ queryEscape secret

/-! ## Session tokens -/

def hexText (bytes : Bytes) : Text :=
  bytes.flatMap fun b => [Nat.digitChar (b.toNat / 16), Nat.digitChar (b.toNat % 16)]

def newToken (random : Random) : Option Text := (random.bytes 32).map hexText

def Primitives.tokenHash (c : Primitives) (token : Text) : Text :=
  hexText (c.sha256 (JsonText.utf8 token)).toList

/-! ## Passwords -/

def pbkdf2Iterations : Nat := 100000
def pbkdf2SaltBytes : Nat := 16
def pbkdf2KeyBytes : Nat := 32

/-- The decoder of the standard encoding skips line breaks. -/
def decodeBase64 (text : Text) : Option Bytes :=
  Base64.decode (text.filter fun c => c ≠ '\n' ∧ c ≠ '\r')

namespace Primitives

variable (c : Primitives)

def hashPassword (password : Text) (random : Random) : Option Text := do
  let salt ← random.bytes pbkdf2SaltBytes
  let key ← c.pbkdf2Sha256 (JsonText.utf8 password) salt pbkdf2Iterations pbkdf2KeyBytes
  return "pbkdf2".toList ++ '$' :: Nat.toDigits 10 pbkdf2Iterations ++ '$' :: Base64.encode salt ++
    '$' :: Base64.encode key

def verifyPassword (password stored : Text) : Bool :=
  match stored.splitOn '$' with
  | [scheme, iterations, salt, key] =>
      if scheme ≠ "pbkdf2".toList then false
      else
        match Decimal.atoi iterations with
        | none => false
        | some iter =>
            if iter ≤ 0 then false
            else
              match decodeBase64 salt, decodeBase64 key with
              | some salt, some want =>
                  c.pbkdf2Sha256 (JsonText.utf8 password) salt iter.toNat want.length = some want
              | _, _ => false
  | _ => false

end Primitives

end TomAgent.Iam
