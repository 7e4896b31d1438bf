import Mathlib.Data.List.AList
import TomAgent.Core.BigEndian

/-!
# The nonce cache

A map from the hexadecimal form of a nonce to its expiry, and the order of
insertion.  Expired entries are only removed when the cache is full.
-/

namespace TomAgent.Authenv

abbrev NonceKey := List Char

def hexDigit (n : Nat) : Char := "0123456789abcdef".toList.getD n '0'

def hex (nonce : Bytes) : NonceKey :=
  nonce.flatMap fun b => [hexDigit (b.toNat / 16), hexDigit (b.toNat % 16)]

abbrev NonceItems := AList (fun _ : NonceKey => Int64)

structure NonceCache where
  cap : Int
  items : NonceItems
  order : List NonceKey

def newNonceCache (capacity : Int) : NonceCache := ⟨capacity, ∅, []⟩

namespace NonceCache

def purgeLoop (now : Int64) : List NonceKey → NonceItems → List NonceKey → NonceItems × List NonceKey
  | [], items, kept => (items, kept)
  | k :: rest, items, kept =>
      if now < (items.lookup k).getD 0 then purgeLoop now rest items (kept ++ [k])
      else purgeLoop now rest (items.erase k) kept

def purge (c : NonceCache) (now : Int64) : NonceCache :=
  if 0 < c.order.length ∧ c.cap ≤ c.items.keys.length then
    let kept := purgeLoop now c.order c.items []
    { c with items := kept.1, order := kept.2 }
  else c

/-- The cache after the call, and the error on a replay. -/
def check (c : NonceCache) (nonce : Bytes) (expiresAt now : Int64) : NonceCache × Except String Unit :=
  let key := hex nonce
  let c := c.purge now
  if (c.items.lookup key).isSome then (c, .error "nonce replay detected")
  else
    ({ c with items := c.items.insert key expiresAt, order := c.order ++ [key] }, .ok ())

/-! ## What is remembered -/

def Due (c : NonceCache) : Prop := 0 < c.order.length ∧ c.cap ≤ c.items.keys.length

instance (c : NonceCache) : Decidable c.Due := by
  unfold Due; infer_instance

/-- The insertion order lists the keys of the map. -/
structure Tidy (c : NonceCache) : Prop where
  nodup : c.order.Nodup
  mem_iff : ∀ k, k ∈ c.order ↔ (c.items.lookup k).isSome

theorem newNonceCache_tidy (capacity : Int) : (newNonceCache capacity).Tidy :=
  ⟨List.nodup_nil, fun k => by simp [newNonceCache]⟩

/-- The loop keeps the keys that have not expired, and the entries of all others go. -/
theorem purgeLoop_spec (now : Int64) {ks : List NonceKey} (items : NonceItems)
    (kept : List NonceKey) (hks : ks.Nodup) :
    (purgeLoop now ks items kept).2 =
        kept ++ ks.filter (fun k => now < (items.lookup k).getD 0) ∧
      ∀ k, (purgeLoop now ks items kept).1.lookup k =
        if k ∈ ks ∧ ¬ now < (items.lookup k).getD 0 then none else items.lookup k := by
  induction ks generalizing items kept with
  | nil => simp [purgeLoop]
  | cons a ks ih =>
      obtain ⟨ha, hks⟩ := List.nodup_cons.mp hks
      unfold purgeLoop
      split
      next hlive =>
        obtain ⟨horder, hitems⟩ := ih items (kept ++ [a]) hks
        refine ⟨by simp [horder, hlive], ?_⟩
        intro k
        rw [hitems]
        by_cases hka : k = a
        · subst hka
          simp [hlive]
        · simp [hka]
      next hdead =>
        obtain ⟨horder, hitems⟩ := ih (items.erase a) kept hks
        have hsame : ∀ k ∈ ks, (items.erase a).lookup k = items.lookup k := by
          intro k hk
          exact AList.lookup_erase_ne fun heq => ha (heq ▸ hk)
        constructor
        · rw [horder, List.filter_cons_of_neg (by simpa using hdead)]
          congr 1
          apply List.filter_congr
          intro k hk
          rw [hsame k hk]
        · intro k
          rw [hitems]
          by_cases hka : k = a
          · subst hka
            simp [ha, hdead]
          · rw [AList.lookup_erase_ne hka]
            simp [hka]

/-- Only expired entries go, and only when the clean-up is due. -/
theorem purge_lookup {c : NonceCache} (h : c.Tidy) (now : Int64) (k : NonceKey) :
    (c.purge now).items.lookup k =
      if c.Due ∧ k ∈ c.order ∧ ¬ now < (c.items.lookup k).getD 0 then none
      else c.items.lookup k := by
  unfold purge
  split
  next hdue =>
    have hdue : c.Due := hdue
    dsimp only
    rw [(purgeLoop_spec now c.items [] h.nodup).2]
    simp [hdue]
  next hdue =>
    have hdue : ¬ c.Due := hdue
    simp [hdue]

/-- An entry for the key is there, and the clean-up would keep it. -/
def Remembers (c : NonceCache) (k : NonceKey) (now : Int64) : Prop :=
  ∃ expiry, c.items.lookup k = some expiry ∧ (c.Due → now < expiry)

theorem purge_lookup_eq_none_iff {c : NonceCache} (h : c.Tidy) (now : Int64) (k : NonceKey) :
    (c.purge now).items.lookup k = none ↔ ¬ c.Remembers k now := by
  rw [purge_lookup h]
  cases hk : c.items.lookup k with
  | none => simp [Remembers, hk]
  | some expiry =>
      have hmem : k ∈ c.order := (h.mem_iff k).mpr (by rw [hk, Option.isSome_some])
      simp [Remembers, hk, hmem]

theorem purge_lookup_of_remembers {c : NonceCache} (h : c.Tidy) {now : Int64} {k : NonceKey}
    (hk : c.Remembers k now) : (c.purge now).items.lookup k = c.items.lookup k := by
  rw [purge_lookup h, if_neg]
  rintro ⟨hdue, -, hdead⟩
  obtain ⟨expiry, hexpiry, hlive⟩ := hk
  rw [hexpiry] at hdead
  exact hdead (hlive hdue)

theorem Tidy.purge {c : NonceCache} (h : c.Tidy) (now : Int64) : (c.purge now).Tidy := by
  unfold NonceCache.purge
  split
  · obtain ⟨horder, hitems⟩ := purgeLoop_spec now c.items [] h.nodup
    constructor
    · dsimp only
      rw [horder]
      exact h.nodup.filter _
    · intro k
      dsimp only
      rw [horder, hitems]
      by_cases hk : k ∈ c.order
      · by_cases hlive : now < (c.items.lookup k).getD 0
        · simp [hk, hlive, (h.mem_iff k).mp hk]
        · simp [hk, hlive]
      · have hnone : ¬ (c.items.lookup k).isSome = true := fun hsome => hk ((h.mem_iff k).mpr hsome)
        simp [hk, hnone]
  · exact h

/-- A nonce passes if no entry for it survives the clean-up. -/
theorem check_ok_iff {c : NonceCache} (h : c.Tidy) (nonce : Bytes) (expiresAt now : Int64) :
    (c.check nonce expiresAt now).2 = .ok () ↔ ¬ c.Remembers (hex nonce) now := by
  rw [← purge_lookup_eq_none_iff h]
  unfold check
  dsimp only
  split
  next hdup =>
    constructor
    · intro h
      cases h
    · intro h
      simp [h] at hdup
  next hnew =>
    constructor
    · intro _
      simpa using hnew
    · exact fun _ => rfl

theorem Tidy.check {c : NonceCache} (h : c.Tidy) (nonce : Bytes) (expiresAt now : Int64) :
    (c.check nonce expiresAt now).1.Tidy := by
  have hpurged := h.purge now
  unfold NonceCache.check
  dsimp only
  split
  next => exact hpurged
  next hnew =>
    have hfresh : hex nonce ∉ (c.purge now).order := fun hmem => hnew ((hpurged.mem_iff _).mp hmem)
    constructor
    · exact List.nodup_append.mpr ⟨hpurged.nodup, List.nodup_singleton _, by
        intro a ha b hb heq
        rw [List.mem_singleton] at hb
        exact hfresh (hb ▸ heq ▸ ha)⟩
    · intro k
      dsimp only
      by_cases hk : k = hex nonce
      · subst hk
        simp
      · rw [AList.lookup_insert_ne hk, ← hpurged.mem_iff k]
        simp [hk]

theorem check_lookup_of_remembers {c : NonceCache} (h : c.Tidy) {nonce : Bytes}
    {expiresAt now : Int64} {k : NonceKey} (hk : c.Remembers k now) :
    (c.check nonce expiresAt now).1.items.lookup k = c.items.lookup k := by
  have hkept := purge_lookup_of_remembers h hk
  unfold check
  dsimp only
  split
  next => exact hkept
  next hnew =>
    have hne : k ≠ hex nonce := by
      rintro rfl
      obtain ⟨expiry, hexpiry, -⟩ := hk
      rw [hkept, hexpiry] at hnew
      exact hnew rfl
    rw [AList.lookup_insert_ne hne, hkept]

/-- A nonce that passes is recorded with its expiry. -/
theorem check_lookup_of_ok {c : NonceCache} {nonce : Bytes} {expiresAt now : Int64}
    (hok : (c.check nonce expiresAt now).2 = .ok ()) :
    (c.check nonce expiresAt now).1.items.lookup (hex nonce) = some expiresAt := by
  unfold check at hok ⊢
  dsimp only at hok ⊢
  split
  next hdup =>
    rw [if_pos hdup] at hok
    cases hok
  next => exact AList.lookup_insert _

end NonceCache

end TomAgent.Authenv
