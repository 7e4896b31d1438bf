import TomAgent.Platform.Store

/-!
# Requests in the outbox

Rows are only added, and of a row only `published_at` changes.  A dispatch request
and its command come into being together, so a command has one request.
-/

namespace TomAgent.Platform.Store

/-- The row `index` asks for the dispatch `d`. -/
def Requested (s : Store) (index : Nat) (d : Dispatch) : Prop :=
  ∃ published, s.outbox[index]? = some ⟨.dispatchRequested, d, published⟩

def Unpublished (s : Store) (index : Nat) : Prop :=
  ∃ e, s.outbox[index]? = some e ∧ e.published = false

def CancelRequested (s : Store) (u : Uuid) : Prop :=
  ∃ e ∈ s.outbox, e.eventType = .cancelRequested ∧ parseUuid e.payload.cmdId = some u

variable {s t : Store}

theorem Requested.unique {index : Nat} {d d' : Dispatch} (h : s.Requested index d)
    (h' : s.Requested index d') : d = d' := by
  obtain ⟨published, hd⟩ := h
  obtain ⟨published', hd'⟩ := h'
  rw [hd] at hd'
  cases hd'
  rfl

/-! ## How the outbox changes -/

def Adds (s t : Store) (type : OutboxType) (d : Dispatch) : Prop :=
  t.outbox = s.outbox ++ [⟨type, d, false⟩]

/-- A new command and its request. -/
theorem submitCommand_adds {d : Dispatch} {expiresAt : Int}
    (h : s.submitCommand d expiresAt = .ok t) :
    s.Adds t .dispatchRequested d ∧ ∃ u, parseUuid d.cmdId = some u ∧ u ∉ s.commands ∧
      t.commands = s.commands.insert u ⟨d.assetId, "QUEUED", expiresAt, none⟩ := by
  obtain ⟨u, hu, hnone, rfl⟩ := submitCommand_ok h
  exact ⟨rfl, u, hu, AList.lookup_eq_none.mp hnone, rfl⟩

theorem cancelCommand_adds {cmdId : String} (h : s.cancelCommand cmdId = .ok t) :
    s.Adds t .cancelRequested ⟨cmdId, "", "", [], 0⟩ ∧ t.commands = s.commands := by
  unfold cancelCommand at h
  split at h
  next => cases h
  next =>
    cases h
    exact ⟨rfl, rfl⟩

theorem Adds.row {type : OutboxType} {d : Dispatch} (h : s.Adds t type d) {i : Nat}
    {e : OutboxEntry} : t.outbox[i]? = some e ↔
      s.outbox[i]? = some e ∨ i = s.outbox.length ∧ e = ⟨type, d, false⟩ := by
  rw [h, List.getElem?_append]
  split
  next hlt =>
    constructor
    · exact Or.inl
    · rintro (he | ⟨rfl, -⟩)
      · exact he
      · exact absurd hlt (Nat.lt_irrefl _)
  next hge =>
    have hnone : s.outbox[i]? = none := List.getElem?_eq_none (Nat.le_of_not_lt hge)
    rw [hnone, List.getElem?_singleton]
    constructor
    · intro he
      split at he
      next hzero =>
        cases he
        exact Or.inr ⟨by omega, rfl⟩
      next => cases he
    · rintro (he | ⟨rfl, rfl⟩)
      · cases he
      · simp

theorem Adds.requested {type : OutboxType} {d : Dispatch} (h : s.Adds t type d) {i : Nat}
    {d' : Dispatch} : t.Requested i d' ↔
      s.Requested i d' ∨ i = s.outbox.length ∧ type = .dispatchRequested ∧ d' = d := by
  unfold Requested
  constructor
  · rintro ⟨published, hrow⟩
    rcases h.row.mp hrow with hold | ⟨hi, hnew⟩
    · exact Or.inl ⟨published, hold⟩
    · cases hnew
      exact Or.inr ⟨hi, rfl, rfl⟩
  · rintro (⟨published, hold⟩ | ⟨hi, rfl, rfl⟩)
    · exact ⟨published, h.row.mpr (Or.inl hold)⟩
    · exact ⟨false, h.row.mpr (Or.inr ⟨hi, rfl⟩)⟩

theorem Adds.requested_old {type : OutboxType} {d : Dispatch} (h : s.Adds t type d) {i : Nat}
    (hi : s.Unpublished i) {d' : Dispatch} : t.Requested i d' ↔ s.Requested i d' := by
  rw [h.requested]
  refine or_iff_left ?_
  rintro ⟨rfl, -⟩
  obtain ⟨e, he, -⟩ := hi
  rw [List.getElem?_eq_none (Nat.le_refl _)] at he
  cases he

theorem Adds.unpublished {type : OutboxType} {d : Dispatch} (h : s.Adds t type d) {i : Nat}
    (hi : s.Unpublished i) : t.Unpublished i := by
  obtain ⟨e, he, hopen⟩ := hi
  exact ⟨e, h.row.mpr (Or.inl he), hopen⟩

/-- An old row that is open now was open before. -/
theorem Adds.unpublished_back {type : OutboxType} {d : Dispatch} (h : s.Adds t type d) {i : Nat}
    {d' : Dispatch} (hd : s.Requested i d') (hi : t.Unpublished i) : s.Unpublished i := by
  obtain ⟨published, hrow⟩ := hd
  obtain ⟨e, he, hopen⟩ := hi
  cases (h.row.mpr (Or.inl hrow)).symm.trans he
  exact ⟨_, hrow, hopen⟩

theorem Adds.unpublished_of_requested {type : OutboxType} {d : Dispatch} (h : s.Adds t type d)
    {i : Nat} {d' : Dispatch} (hi : t.Requested i d') : s.Requested i d' ∨ t.Unpublished i := by
  rcases h.requested.mp hi with hold | ⟨rfl, -, -⟩
  · exact Or.inl hold
  · exact Or.inr ⟨_, h.row.mpr (Or.inr ⟨rfl, rfl⟩), rfl⟩

theorem Adds.cancelRequested {type : OutboxType} {d : Dispatch} (h : s.Adds t type d) {u : Uuid}
    (hu : s.CancelRequested u) : t.CancelRequested u := by
  obtain ⟨e, he, hcancel⟩ := hu
  refine ⟨e, ?_, hcancel⟩
  rw [h]
  exact List.mem_append_left _ he

theorem row_markPublished (s : Store) (index i : Nat) :
    (s.markPublished index).outbox[i]? =
      (s.outbox[i]?).map fun e => if index = i then { e with published := true } else e := by
  simp only [markPublished, List.getElem?_modify]
  rfl

theorem requested_markPublished {index i : Nat} {d : Dispatch} :
    (s.markPublished index).Requested i d ↔ s.Requested i d := by
  unfold Requested
  simp only [row_markPublished, Option.map_eq_some_iff]
  constructor
  · rintro ⟨published, e, he, heq⟩
    obtain ⟨type, d', published'⟩ := e
    split at heq
    next =>
      cases heq
      exact ⟨published', he⟩
    next =>
      cases heq
      exact ⟨_, he⟩
  · rintro ⟨published, he⟩
    refine ⟨if index = i then true else published, _, he, ?_⟩
    split
    next => rfl
    next => rfl

theorem unpublished_markPublished {index i : Nat} :
    (s.markPublished index).Unpublished i ↔ s.Unpublished i ∧ i ≠ index := by
  unfold Unpublished
  simp only [row_markPublished, Option.map_eq_some_iff]
  constructor
  · rintro ⟨e', ⟨e, he, rfl⟩, hopen⟩
    split at hopen
    next => cases hopen
    next hne => exact ⟨⟨e, he, hopen⟩, Ne.symm hne⟩
  · rintro ⟨⟨e, he, hopen⟩, hne⟩
    exact ⟨e, ⟨e, he, if_neg (Ne.symm hne)⟩, hopen⟩

theorem cancelRequested_markPublished {index : Nat} {u : Uuid} (h : s.CancelRequested u) :
    (s.markPublished index).CancelRequested u := by
  obtain ⟨e, he, htype, hu⟩ := h
  obtain ⟨i, hi⟩ := List.mem_iff_getElem?.mp he
  have hrow := s.row_markPublished index i
  rw [hi, Option.map_some] at hrow
  refine ⟨_, List.mem_iff_getElem?.mpr ⟨i, hrow⟩, ?_⟩
  split
  next => exact ⟨htype, hu⟩
  next => exact ⟨htype, hu⟩

theorem Restamps.requested (h : s.Restamps t) {i : Nat} {d : Dispatch} :
    t.Requested i d ↔ s.Requested i d := by
  unfold Requested
  rw [h.outbox]

theorem Restamps.unpublished (h : s.Restamps t) {i : Nat} : t.Unpublished i ↔ s.Unpublished i := by
  unfold Unpublished
  rw [h.outbox]

theorem Restamps.cancelRequested (h : s.Restamps t) {u : Uuid} :
    t.CancelRequested u ↔ s.CancelRequested u := by
  unfold CancelRequested
  rw [h.outbox]

/-! ## One request per command -/

/-- What ties the requests to the commands. -/
structure Registered (s : Store) : Prop where
  request : ∀ u row, s.commands.lookup u = some row →
    ∃ i d, s.Requested i d ∧ parseUuid d.cmdId = some u ∧ d.assetId = row.assetId
  command : ∀ i d, s.Requested i d → ∃ u ∈ s.commands, parseUuid d.cmdId = some u
  once : ∀ i j d d', s.Requested i d → s.Requested j d' →
    parseUuid d.cmdId = parseUuid d'.cmdId → i = j

theorem Registered.empty : Registered empty := by
  refine ⟨?_, ?_, ?_⟩
  · intro u row hrow
    cases hrow
  · rintro i d ⟨published, hrow⟩
    cases hrow
  · rintro i j d d' ⟨published, hrow⟩
    cases hrow

/-- A command that is new has no request yet. -/
theorem Registered.submitCommand (h : s.Registered) {d : Dispatch} {expiresAt : Int}
    (hsubmit : s.submitCommand d expiresAt = .ok t) : t.Registered := by
  obtain ⟨hadds, u, hu, hnew, hcommands⟩ := submitCommand_adds hsubmit
  have hfresh : ∀ i d', s.Requested i d' → parseUuid d'.cmdId ≠ some u := by
    intro i d' hd' heq
    obtain ⟨u', hmem, hu'⟩ := h.command i d' hd'
    rw [heq] at hu'
    cases hu'
    exact hnew hmem
  refine ⟨?_, ?_, ?_⟩
  · intro u' row hrow
    rw [hcommands] at hrow
    by_cases heq : u' = u
    · subst heq
      rw [AList.lookup_insert] at hrow
      cases hrow
      exact ⟨_, d, hadds.requested.mpr (Or.inr ⟨rfl, rfl, rfl⟩), hu, rfl⟩
    · rw [AList.lookup_insert_ne heq] at hrow
      obtain ⟨i, d', hd', hrest⟩ := h.request u' row hrow
      exact ⟨i, d', hadds.requested.mpr (Or.inl hd'), hrest⟩
  · intro i d' hd'
    rw [hcommands]
    rcases hadds.requested.mp hd' with hold | ⟨-, -, rfl⟩
    · obtain ⟨u', hmem, hu'⟩ := h.command i d' hold
      exact ⟨u', (AList.mem_insert _).mpr (Or.inr hmem), hu'⟩
    · exact ⟨u, (AList.mem_insert _).mpr (Or.inl rfl), hu⟩
  · intro i j d₁ d₂ h₁ h₂ heq
    rcases hadds.requested.mp h₁ with hold₁ | ⟨hi, -, rfl⟩
    · rcases hadds.requested.mp h₂ with hold₂ | ⟨-, -, rfl⟩
      · exact h.once i j d₁ d₂ hold₁ hold₂ heq
      · exact absurd (heq.trans hu) (hfresh i d₁ hold₁)
    · rcases hadds.requested.mp h₂ with hold₂ | ⟨hj, -, -⟩
      · exact absurd (heq.symm.trans hu) (hfresh j d₂ hold₂)
      · rw [hi, hj]

theorem Registered.of_same (h : s.Registered)
    (hrequested : ∀ i d, t.Requested i d ↔ s.Requested i d)
    (hkeys : ∀ u, u ∈ t.commands ↔ u ∈ s.commands)
    (hrows : ∀ u row', t.commands.lookup u = some row' → ∃ row, s.commands.lookup u = some row ∧
      row'.assetId = row.assetId) : t.Registered := by
  refine ⟨?_, ?_, ?_⟩
  · intro u row' hrow'
    obtain ⟨row, hrow, hasset⟩ := hrows u row' hrow'
    obtain ⟨i, d, hd, hu, hd'⟩ := h.request u row hrow
    exact ⟨i, d, (hrequested i d).mpr hd, hu, hd'.trans hasset.symm⟩
  · intro i d hd
    obtain ⟨u, hmem, hu⟩ := h.command i d ((hrequested i d).mp hd)
    exact ⟨u, (hkeys u).mpr hmem, hu⟩
  · intro i j d d' hd hd' heq
    exact h.once i j d d' ((hrequested i d).mp hd) ((hrequested j d').mp hd') heq

theorem Registered.cancelCommand (h : s.Registered) {cmdId : String}
    (hcancel : s.cancelCommand cmdId = .ok t) : t.Registered := by
  obtain ⟨hadds, hcommands⟩ := cancelCommand_adds hcancel
  refine h.of_same ?_ ?_ ?_
  · intro i d
    rw [hadds.requested]
    simp
  · intro u
    rw [hcommands]
  · intro u row hrow
    rw [hcommands] at hrow
    exact ⟨row, hrow, rfl⟩

theorem Registered.markPublished (h : s.Registered) (index : Nat) :
    (s.markPublished index).Registered :=
  h.of_same (fun _ _ => requested_markPublished) (fun _ => Iff.rfl)
    fun _ row hrow => ⟨row, hrow, rfl⟩

theorem Registered.restamps (h : s.Registered) (hstamp : s.Restamps t) : t.Registered := by
  refine h.of_same (fun _ _ => hstamp.requested) hstamp.keys ?_
  intro u row' hrow'
  obtain ⟨row, hrow, hasset, -⟩ := hstamp.rows u row' hrow'
  exact ⟨row, hrow, hasset⟩

end TomAgent.Platform.Store
