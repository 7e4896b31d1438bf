import TomAgent.Authenv.NonceCache
import TomAgent.Core.ExpiringSet
import TomAgent.Core.Slice

/-!
# The nonce cache is a set with purges

`Check` deletes from the map while it filters the insertion order in place.  The two
stay in step: the slice enumerates the keys of the map, and the map is the set of
nonces that a set with explicit purges holds after the same calls.
-/

namespace TomAgent.Authenv

structure CheckCall where
  nonce : Bytes
  expiresAt : Int64
  now : Int64

/-- The cache with the insertion order as the slice that it is. -/
structure SlicedCache where
  cap : Int
  items : NonceItems
  order : Slice NonceKey

namespace SlicedCache

def new (capacity : Int) : SlicedCache := ⟨capacity, ∅, Slice.empty⟩

def visit (now : Int64) (items : NonceItems) (k : NonceKey) : NonceItems × Bool :=
  if now < (items.lookup k).getD 0 then (items, true) else (items.erase k, false)

/-- `kept := c.order[:0]`, the loop over `c.order`, and `c.order = kept`. -/
def purge (c : SlicedCache) (now : Int64) : SlicedCache :=
  if 0 < c.order.len ∧ c.cap ≤ c.items.keys.length then
    let r := c.order.compact (visit now) c.items
    { c with items := r.2, order := r.1 }
  else c

def check (c : SlicedCache) (call : CheckCall) : SlicedCache × Except String Unit :=
  let key := hex call.nonce
  let c := c.purge call.now
  if (c.items.lookup key).isSome then (c, .error "nonce replay detected")
  else ({ c with items := c.items.insert key call.expiresAt, order := c.order.append key }, .ok ())

def after (c : SlicedCache) (calls : List CheckCall) : SlicedCache :=
  calls.foldl (fun c call => (c.check call).1) c

/-! ## Filtering in place -/

def view (c : SlicedCache) : NonceCache := ⟨c.cap, c.items, c.order.elems⟩

theorem purgeLoop_pass (now : Int64) (ks : List NonceKey) (items : NonceItems)
    (kept : List NonceKey) :
    NonceCache.purgeLoop now ks items kept =
      ((Slice.pass (visit now) ks items).2, kept ++ (Slice.pass (visit now) ks items).1) := by
  induction ks generalizing items kept with
  | nil => simp [NonceCache.purgeLoop, Slice.pass]
  | cons k ks ih =>
      unfold NonceCache.purgeLoop
      by_cases hlive : now < (items.lookup k).getD 0
      · have hvisit : visit now items k = (items, true) := if_pos hlive
        rw [if_pos hlive, ih]
        simp [Slice.pass, hvisit]
      · have hvisit : visit now items k = (items.erase k, false) := if_neg hlive
        rw [if_neg hlive, ih]
        simp [Slice.pass, hvisit]

theorem length_elems (s : Slice NonceKey) : s.elems.length = s.len := by
  rw [Slice.elems, List.length_take, Nat.min_eq_left s.fits]

theorem view_purge (c : SlicedCache) (now : Int64) : (c.purge now).view = c.view.purge now := by
  have hloop := purgeLoop_pass now c.order.elems c.items []
  rw [Slice.pass_elems] at hloop
  have hdue : c.view.Due ↔ 0 < c.order.len ∧ c.cap ≤ c.items.keys.length := by
    rw [← length_elems]
    rfl
  unfold purge
  by_cases hfull : 0 < c.order.len ∧ c.cap ≤ c.items.keys.length
  · have hpurge : c.view.purge now = ⟨c.cap, (NonceCache.purgeLoop now c.order.elems c.items []).1,
        (NonceCache.purgeLoop now c.order.elems c.items []).2⟩ := if_pos (hdue.mpr hfull)
    rw [if_pos hfull, hpurge, hloop]
    rfl
  · have hpurge : c.view.purge now = c.view := if_neg (mt hdue.mp hfull)
    rw [if_neg hfull, hpurge]

theorem view_check (c : SlicedCache) (call : CheckCall) :
    ((c.check call).1.view, (c.check call).2) =
      c.view.check call.nonce call.expiresAt call.now := by
  have hpurge := view_purge c call.now
  have hitems : (c.view.purge call.now).items = (c.purge call.now).items := by rw [← hpurge]; rfl
  unfold check NonceCache.check
  dsimp only
  rw [hitems]
  by_cases hdup : ((c.purge call.now).items.lookup (hex call.nonce)).isSome
  · rw [if_pos hdup, if_pos hdup, hpurge]
  · rw [if_neg hdup, if_neg hdup, ← hpurge]
    simp [view]

end SlicedCache

/-! ## The entries as a set -/

namespace NonceCache

def entries (c : NonceCache) : Finset (NonceKey × Int64) :=
  (c.items.entries.map fun e => (e.1, e.2)).toFinset

theorem mem_entries {c : NonceCache} {k : NonceKey} {expiry : Int64} :
    (k, expiry) ∈ c.entries ↔ c.items.lookup k = some expiry := by
  rw [entries, List.mem_toFinset, List.mem_map, ← Option.mem_def, AList.mem_lookup_iff]
  constructor
  · rintro ⟨⟨k', e'⟩, hmem, heq⟩
    cases heq
    exact hmem
  · intro hmem
    exact ⟨⟨k, expiry⟩, hmem, rfl⟩

theorem card_entries (c : NonceCache) : c.entries.card = c.items.keys.length := by
  have hkeys : (c.items.entries.map fun e => (e.1, e.2)).map Prod.fst = c.items.keys := by
    rw [List.map_map]
    rfl
  have hnodup : (c.items.entries.map fun e => (e.1, e.2)).Nodup :=
    List.Nodup.of_map Prod.fst (by rw [hkeys]; exact c.items.keys_nodup)
  rw [entries, List.toFinset_card_of_nodup hnodup, ← hkeys, List.length_map, List.length_map,
    List.length_map]

theorem mem_keys_entries (c : NonceCache) (k : NonceKey) :
    k ∈ ExpiringSet.keys c.entries ↔ (c.items.lookup k).isSome := by
  rw [ExpiringSet.keys, Finset.mem_image, Option.isSome_iff_exists]
  constructor
  · rintro ⟨⟨k', expiry⟩, hmem, rfl⟩
    exact ⟨expiry, mem_entries.mp hmem⟩
  · rintro ⟨expiry, hexpiry⟩
    exact ⟨(k, expiry), mem_entries.mpr hexpiry, rfl⟩

/-- The clean-up is due when the set is full. -/
theorem due_iff_full {c : NonceCache} (h : c.Tidy) : c.Due ↔ ExpiringSet.Full c.cap c.entries := by
  unfold Due ExpiringSet.Full
  rw [card_entries]
  apply and_congr_left'
  rw [List.length_pos_iff_exists_mem]
  constructor
  · rintro ⟨k, hk⟩
    obtain ⟨expiry, hexpiry⟩ := Option.isSome_iff_exists.mp ((h.mem_iff k).mp hk)
    exact ⟨(k, expiry), mem_entries.mpr hexpiry⟩
  · rintro ⟨⟨k, expiry⟩, hmem⟩
    exact ⟨k, (h.mem_iff k).mpr (by rw [mem_entries.mp hmem, Option.isSome_some])⟩

theorem purge_entries {c : NonceCache} (h : c.Tidy) (now : Int64) :
    (c.purge now).entries = ExpiringSet.purge c.cap c.entries now := by
  ext ⟨k, expiry⟩
  rw [mem_entries, purge_lookup h, ExpiringSet.purge]
  by_cases hdue : c.Due
  · rw [if_pos ((due_iff_full h).mp hdue), ExpiringSet.unexpired, Finset.mem_filter, mem_entries]
    cases hk : c.items.lookup k with
    | none => simp
    | some expiry' =>
        have hmem : k ∈ c.order := (h.mem_iff k).mpr (by rw [hk, Option.isSome_some])
        by_cases hlive : now < expiry'
        · rw [if_neg (fun hdead => hdead.2.2 hlive)]
          constructor
          · rintro ⟨rfl⟩
            exact ⟨rfl, hlive⟩
          · exact fun hkept => hkept.1
        · rw [if_pos ⟨hdue, hmem, hlive⟩]
          constructor
          · intro hnone
            cases hnone
          · rintro ⟨⟨rfl⟩, hexpiry⟩
            exact absurd hexpiry hlive
  · rw [if_neg (mt (due_iff_full h).mpr hdue), mem_entries]
    simp [hdue]

theorem insert_entries (c : NonceCache) {k : NonceKey} (expiry : Int64) (order : List NonceKey)
    (h : ¬ (c.items.lookup k).isSome) :
    entries { c with items := c.items.insert k expiry, order := order } =
      insert (k, expiry) c.entries := by
  ext ⟨k', expiry'⟩
  rw [mem_entries, Finset.mem_insert, mem_entries]
  by_cases hk : k' = k
  · subst hk
    have hnone : c.items.lookup k' = none := by simpa using h
    simp [hnone, eq_comm]
  · simp [AList.lookup_insert_ne hk, hk]

/-- One call on the cache and on the set. -/
theorem check_entries {c : NonceCache} (h : c.Tidy) (nonce : Bytes) (expiresAt now : Int64) :
    let o := ExpiringSet.offer c.cap c.entries (hex nonce) expiresAt now
    (c.check nonce expiresAt now).1.entries = o.1 ∧
      (c.check nonce expiresAt now).2 =
        if o.2 then .ok () else .error "nonce replay detected" := by
  intro o
  have hmem : hex nonce ∈ ExpiringSet.keys (ExpiringSet.purge c.cap c.entries now) ↔
      ((c.purge now).items.lookup (hex nonce)).isSome := by
    rw [← purge_entries h, mem_keys_entries]
  unfold check
  dsimp only
  by_cases hdup : ((c.purge now).items.lookup (hex nonce)).isSome
  · have ho : o = _ := ExpiringSet.offer_of_mem (hmem.mpr hdup) expiresAt
    rw [if_pos hdup, ho]
    exact ⟨purge_entries h now, rfl⟩
  · have ho : o = _ := ExpiringSet.offer_of_notMem (mt hmem.mp hdup) expiresAt
    rw [if_neg hdup, ho]
    exact ⟨by rw [insert_entries _ _ _ hdup, purge_entries h], rfl⟩

theorem check_cap (c : NonceCache) (nonce : Bytes) (expiresAt now : Int64) :
    (c.check nonce expiresAt now).1.cap = c.cap := by
  have hpurge : (c.purge now).cap = c.cap := by unfold purge; split <;> rfl
  unfold check
  dsimp only
  split <;> exact hpurge

end NonceCache

/-! ## Nonces and their keys -/

theorem hexDigit_injOn : ∀ m < 16, ∀ n < 16, hexDigit m = hexDigit n → m = n := by decide

theorem hex_injective : Function.Injective hex := by
  intro p
  induction p with
  | nil =>
      intro q h
      cases q with
      | nil => rfl
      | cons b q => simp [hex] at h
  | cons a p ih =>
      intro q h
      cases q with
      | nil => simp [hex] at h
      | cons b q =>
          simp only [hex, List.flatMap_cons, List.cons_append, List.nil_append,
            List.cons.injEq] at h
          obtain ⟨hhigh, hlow, hrest⟩ := h
          have ha := a.toNat_lt
          have hb := b.toNat_lt
          have hhigh := hexDigit_injOn _ (by omega) _ (by omega) hhigh
          have hlow := hexDigit_injOn _ (Nat.mod_lt _ (by omega)) _ (Nat.mod_lt _ (by omega)) hlow
          have hab : a = b := UInt8.toNat_inj.mp (by omega)
          rw [hab, ih hrest]

def hexKey : Bytes ↪ NonceKey := ⟨hex, hex_injective⟩

namespace SlicedCache

/-- The nonces that a set with explicit purges holds after some calls. -/
def seen (capacity : Int) (calls : List CheckCall) : Finset (Bytes × Int64) :=
  calls.foldl (fun s call =>
    (ExpiringSet.offer capacity s call.nonce call.expiresAt call.now).1) ∅

/-- The slice enumerates the keys of the map, and the map holds the entries of the set. -/
structure Shows (c : SlicedCache) (s : Finset (Bytes × Int64)) : Prop where
  nodup : c.order.elems.Nodup
  mem_order : ∀ k, k ∈ c.order.elems ↔ k ∈ c.items
  entries : ∀ k expiry,
    c.items.lookup k = some expiry ↔ ∃ nonce, (nonce, expiry) ∈ s ∧ hex nonce = k

theorem shows_iff (c : SlicedCache) (s : Finset (Bytes × Int64)) :
    c.Shows s ↔ c.view.Tidy ∧ c.view.entries = s.map (ExpiringSet.rename hexKey) := by
  have hentry : ∀ k expiry, (k, expiry) ∈ s.map (ExpiringSet.rename hexKey) ↔
      ∃ nonce, (nonce, expiry) ∈ s ∧ hex nonce = k := by
    intro k expiry
    rw [Finset.mem_map]
    constructor
    · rintro ⟨⟨nonce, e⟩, hmem, heq⟩
      cases heq
      exact ⟨nonce, hmem, rfl⟩
    · rintro ⟨nonce, hmem, rfl⟩
      exact ⟨(nonce, expiry), hmem, rfl⟩
  have hkey : ∀ k, k ∈ c.items ↔ (c.items.lookup k).isSome := fun k => AList.lookup_isSome.symm
  constructor
  · intro h
    refine ⟨⟨h.nodup, fun k => (h.mem_order k).trans (hkey k)⟩, ?_⟩
    ext ⟨k, expiry⟩
    rw [NonceCache.mem_entries, hentry]
    exact h.entries k expiry
  · rintro ⟨htidy, hset⟩
    refine ⟨htidy.nodup, fun k => (htidy.mem_iff k).trans (hkey k).symm, ?_⟩
    intro k expiry
    rw [← hentry, ← hset, NonceCache.mem_entries]
    rfl

/-- One call keeps the cache in step with the set. -/
theorem Shows.check {c : SlicedCache} {s : Finset (Bytes × Int64)} (h : c.Shows s)
    (call : CheckCall) :
    let o := ExpiringSet.offer c.cap s call.nonce call.expiresAt call.now
    (c.check call).1.Shows o.1 ∧ (c.check call).1.cap = c.cap ∧
      (c.check call).2 = if o.2 then .ok () else .error "nonce replay detected" := by
  intro o
  obtain ⟨htidy, hset⟩ := (shows_iff c s).mp h
  obtain ⟨hview, hanswer⟩ := Prod.ext_iff.mp (view_check c call)
  dsimp only at hview hanswer
  have hentries := NonceCache.check_entries htidy call.nonce call.expiresAt call.now
  rw [hset] at hentries
  have hrename := ExpiringSet.offer_map hexKey c.cap s call.nonce call.expiresAt call.now
  change ExpiringSet.offer c.view.cap _ (hex call.nonce) _ _ = _ at hrename
  rw [hrename] at hentries
  refine ⟨(shows_iff _ _).mpr ⟨?_, ?_⟩, ?_, ?_⟩
  · rw [hview]
    exact htidy.check _ _ _
  · rw [hview]
    exact hentries.1
  · have hcap := NonceCache.check_cap c.view call.nonce call.expiresAt call.now
    rw [← hview] at hcap
    exact hcap
  · rw [hanswer]
    exact hentries.2

theorem shows_new (capacity : Int) : (new capacity).Shows ∅ :=
  ⟨List.nodup_nil, fun k => by simp [new, Slice.empty, Slice.elems], fun k expiry => by simp [new]⟩

theorem Shows.after {c : SlicedCache} {s : Finset (Bytes × Int64)} (h : c.Shows s)
    (calls : List CheckCall) :
    (c.after calls).cap = c.cap ∧ (c.after calls).Shows (calls.foldl (fun s call =>
      (ExpiringSet.offer c.cap s call.nonce call.expiresAt call.now).1) s) := by
  induction calls generalizing c s with
  | nil => exact ⟨rfl, h⟩
  | cons call calls ih =>
      obtain ⟨hnext, hcap, -⟩ := h.check call
      have hrest := ih hnext
      rw [hcap] at hrest
      exact hrest

theorem Shows.card {c : SlicedCache} {s : Finset (Bytes × Int64)} (h : c.Shows s) :
    c.items.keys.length = s.card := by
  have hcard := NonceCache.card_entries c.view
  rw [((shows_iff c s).mp h).2, Finset.card_map] at hcard
  exact hcard.symm

end SlicedCache

open SlicedCache

/-- After every sequence of calls the slice enumerates the keys of the map without duplicates
and the map is the set `seen` of nonces.  The next call purges exactly when the set is not empty
and has reached the capacity, removes exactly what has expired, also when it then rejects the
nonce, rejects a nonce that is still there and adds every other one.  More than `capacity`
entries are there afterwards only if nothing that the call found when it inserted, that is after
its purge, had expired. -/
theorem nonceCache_refines_set (capacity : Int) (calls : List CheckCall) (call : CheckCall) :
    let c := (SlicedCache.new capacity).after calls
    let s := seen capacity calls
    let remaining := if s.Nonempty ∧ capacity ≤ s.card then s.filter fun e => call.now < e.2 else s
    let replayed := call.nonce ∈ remaining.image Prod.fst
    let r := c.check call
    c.Shows s ∧ c.items.keys.length = s.card ∧
      r.1.Shows (if replayed then remaining else insert (call.nonce, call.expiresAt) remaining) ∧
      r.2 = (if replayed then .error "nonce replay detected" else .ok ()) ∧
      (capacity < r.1.items.keys.length → ∀ e ∈ remaining, call.now < e.2) := by
  intro c s remaining replayed r
  obtain ⟨hcap, hshows⟩ := (shows_new capacity).after calls
  have hpurge : ExpiringSet.purge capacity s call.now = remaining := rfl
  obtain ⟨hnext, -, hanswer⟩ := hshows.check call
  rw [hcap] at hnext hanswer
  change r.1.Shows (ExpiringSet.offer capacity s call.nonce call.expiresAt call.now).1 at hnext
  change r.2 = ite ((ExpiringSet.offer capacity s call.nonce call.expiresAt call.now).2 = true) _ _
    at hanswer
  refine ⟨hshows, hshows.card, ?_, ?_, ?_⟩
  · by_cases hdup : replayed
    · rw [ExpiringSet.offer_of_mem hdup] at hnext
      rw [if_pos hdup]
      exact hnext
    · rw [ExpiringSet.offer_of_notMem hdup] at hnext
      rw [if_neg hdup]
      exact hnext
  · by_cases hdup : replayed
    · rw [hanswer, ExpiringSet.offer_of_mem hdup, if_pos hdup]
      rfl
    · rw [hanswer, ExpiringSet.offer_of_notMem hdup, if_neg hdup]
      rfl
  · intro hover
    rw [hnext.card] at hover
    exact ExpiringSet.unexpired_of_capacity_lt hover

end TomAgent.Authenv
