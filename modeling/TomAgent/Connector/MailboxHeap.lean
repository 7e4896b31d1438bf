import TomAgent.Connector.MailboxRuns
import TomAgent.Core.Slice

/-!
# The mailbox in memory

The queues and the index of the mailbox hold pointers to shared records, and
`NextDispatch` filters a queue in place, over the array that it reads from.  The
operations here work on memory as the code does, and they are shown to do what the
operations on ids do.
-/

namespace TomAgent.Connector

open Platform Execution

abbrev Addr := Nat

abbrev Cells := List MailboxCommand

structure MailboxHeap where
  perAsset : Nat
  ttl : Int
  cells : Cells
  byAsset : AList (fun _ : String => Slice Addr)
  byID : AList (fun _ : String => Addr)
  pendingCancels : AList (fun _ : String => List String)

/-- The state of the loop of `NextDispatch`: the records and the commands to dispatch. -/
structure Dispatching where
  cells : Cells
  cmds : List Addr

namespace MailboxHeap

def new (perAsset : Nat) (ttl : Int) : MailboxHeap := ⟨perAsset, ttl, [], ∅, ∅, ∅⟩

def queue (h : MailboxHeap) (assetId : String) : Slice Addr := (h.byAsset.lookup assetId).getD .empty

def cancels (h : MailboxHeap) (assetId : String) : List String :=
  (h.pendingCancels.lookup assetId).getD []

def Counts (cells : Cells) (a : Addr) : Prop :=
  ∃ c ∈ cells[a]?, c.state = .queued ∨ c.state = .dispatched

instance (cells : Cells) (a : Addr) : Decidable (Counts cells a) :=
  Table.decidableFound (cells[a]?) fun c => c.state = .queued ∨ c.state = .dispatched

def submit (h : MailboxHeap) (d : Dispatch) (now : Int) : Except MailboxError MailboxHeap :=
  match h.byID.lookup d.cmdId with
  | some _ => .error .dupCmdID
  | none =>
      let q := h.queue d.assetId
      if h.perAsset ≤ (q.elems.filter fun a => Counts h.cells a).length then .error .full
      else
        let a := h.cells.length
        .ok { h with
          cells := h.cells ++
            [⟨d.cmdId, d.action, d.params, d.timeoutSec, .queued, now, now + h.ttl, none⟩]
          byAsset := h.byAsset.insert d.assetId (q.append a)
          byID := h.byID.insert d.cmdId a }

def cancel (h : MailboxHeap) (assetId cmdId : String) : Except MailboxError (Bool × MailboxHeap) :=
  match h.byID.lookup cmdId with
  | none => .error .notCancellable
  | some a =>
      match h.cells[a]? with
      | none => .error .notCancellable
      | some c =>
          match c.state with
          | .terminal | .expired => .error .notCancellable
          | .queued => .ok (false, { h with cells := h.cells.set a { c with state := .expired } })
          | .dispatched => .ok (true, { h with
              pendingCancels := h.pendingCancels.insert assetId (h.cancels assetId ++ [cmdId]) })

/-- One round of the loop of `NextDispatch`: the record is written through its pointer,
and the flag says whether the pointer stays in the queue. -/
def visit (now : Int) (s : Dispatching) (a : Addr) : Dispatching × Bool :=
  match s.cells[a]? with
  | none => (s, true)
  | some c =>
      match c.state with
      | .queued =>
          if c.expiresAt < now then ({ s with cells := s.cells.set a { c with state := .expired } }, false)
          else (⟨s.cells.set a { c with state := .dispatched }, s.cmds ++ [a]⟩, true)
      | .dispatched =>
          if c.expiresAt < now then ({ s with cells := s.cells.set a { c with state := .expired } }, false)
          else (s, true)
      | _ => (s, true)

def nextDispatch (h : MailboxHeap) (assetId : String) (now : Int) :
    MailboxHeap × List Addr × List String :=
  let r := (h.queue assetId).compact (visit now) ⟨h.cells, []⟩
  ({ h with
      cells := r.2.cells
      byAsset := h.byAsset.insert assetId r.1
      pendingCancels := h.pendingCancels.erase assetId },
    r.2.cmds, h.cancels assetId)

def complete (h : MailboxHeap) (cmdId : String) (result : Payload) : MailboxHeap :=
  match h.byID.lookup cmdId with
  | none => h
  | some a =>
      match h.cells[a]? with
      | none => h
      | some c => { h with cells := h.cells.set a { c with state := .terminal, result := some result } }

end MailboxHeap

/-! ## The index and the records -/

/-- Every entry of the index points to the record of its id. -/
def Indexed (index : AList (fun _ : String => Addr)) (cells : Cells) : Prop :=
  ∀ id a, index.lookup id = some a → ∃ c, cells[a]? = some c ∧ c.cmdId = id

/-- The records by id, as the index gives them. -/
def Mirrors (index : AList (fun _ : String => Addr)) (cells : Cells)
    (byID : AList (fun _ : String => MailboxCommand)) : Prop :=
  ∀ id, byID.lookup id = (index.lookup id).bind fun a => cells[a]?

/-- The pointer is the entry of the id that its record carries. -/
def Linked (index : AList (fun _ : String => Addr)) (cells : Cells) (a : Addr) : Prop :=
  ∃ c, cells[a]? = some c ∧ index.lookup c.cmdId = some a

def nameAt (cells : Cells) (a : Addr) : String := (cells[a]?.map MailboxCommand.cmdId).getD ""

def tagAt (cells : Cells) (a : Addr) : Option (String × Int) :=
  cells[a]?.map fun c => (c.cmdId, c.expiresAt)

theorem nameAt_of_tagAt {cells cells' : Cells} {a : Addr} (h : tagAt cells' a = tagAt cells a) :
    nameAt cells' a = nameAt cells a := by
  have hmap : ∀ l : Cells, l[a]?.map MailboxCommand.cmdId = (tagAt l a).map Prod.fst := by
    intro l
    rw [tagAt, Option.map_map]
    rfl
  rw [nameAt, nameAt, hmap, hmap, h]

section Write

variable {index : AList (fun _ : String => Addr)} {cells : Cells} {a : Addr} {c c' : MailboxCommand}

theorem getElem?_set_of_some (hc : cells[a]? = some c) (b : Addr) :
    (cells.set a c')[b]? = if b = a then some c' else cells[b]? := by
  obtain ⟨ha, -⟩ := List.getElem?_eq_some_iff.mp hc
  rw [List.getElem?_set]
  by_cases hb : b = a
  · subst hb
    simp [ha]
  · simp [hb, Ne.symm hb]

theorem tagAt_set (hc : cells[a]? = some c) (hname : c'.cmdId = c.cmdId)
    (hexpires : c'.expiresAt = c.expiresAt) (b : Addr) :
    tagAt (cells.set a c') b = tagAt cells b := by
  unfold tagAt
  rw [getElem?_set_of_some hc]
  split
  next heq => rw [heq, hc, Option.map_some, Option.map_some, hname, hexpires]
  next => rfl

theorem Indexed.set (h : Indexed index cells) (hc : cells[a]? = some c)
    (hname : c'.cmdId = c.cmdId) : Indexed index (cells.set a c') := by
  intro id b hb
  obtain ⟨d, hd, hdname⟩ := h id b hb
  rw [getElem?_set_of_some hc]
  split
  next heq =>
    subst heq
    rw [hc] at hd
    cases hd
    exact ⟨c', rfl, hname.trans hdname⟩
  next => exact ⟨d, hd, hdname⟩

theorem Linked.set {b : Addr} (h : Linked index cells b) (hc : cells[a]? = some c)
    (hname : c'.cmdId = c.cmdId) : Linked index (cells.set a c') b := by
  obtain ⟨d, hd, hlookup⟩ := h
  unfold Linked
  rw [getElem?_set_of_some hc]
  split
  next heq =>
    subst heq
    rw [hc] at hd
    cases hd
    exact ⟨c', rfl, hname ▸ hlookup⟩
  next => exact ⟨d, hd, hlookup⟩

/-- Writing a record through its pointer is replacing it under its id. -/
theorem Mirrors.set {byID : AList (fun _ : String => MailboxCommand)} (h : Mirrors index cells byID)
    (hindexed : Indexed index cells) (hc : cells[a]? = some c) (hlookup : index.lookup c.cmdId = some a) :
    Mirrors index (cells.set a c') (byID.insert c.cmdId c') := by
  intro id
  by_cases hid : id = c.cmdId
  · subst hid
    rw [AList.lookup_insert, hlookup, Option.bind_some, getElem?_set_of_some hc, if_pos rfl]
  · rw [AList.lookup_insert_ne hid, h id]
    cases hb : index.lookup id with
    | none => rfl
    | some b =>
        have hne : b ≠ a := by
          rintro rfl
          obtain ⟨d, hd, hname⟩ := hindexed id b hb
          rw [hc] at hd
          cases hd
          exact hid hname.symm
        rw [Option.bind_some, Option.bind_some, getElem?_set_of_some hc, if_neg hne]

end Write

/-! ## The loop of NextDispatch -/

/-- One round, as what the pass makes of the record. -/
theorem visit_eq {now : Int} {s : Dispatching} {a : Addr} {c : MailboxCommand}
    (hc : s.cells[a]? = some c) :
    MailboxHeap.visit now s a =
      (⟨s.cells.set a (Mailbox.swept now c),
        s.cmds ++ if (Mailbox.handedOut now c).isSome then [a] else []⟩,
        !decide (Mailbox.Overdue now c)) := by
  have hsame : s.cells.set a c = s.cells := by
    apply List.ext_getElem?
    intro b
    rw [getElem?_set_of_some hc]
    split
    next heq => rw [heq, hc]
    next => rfl
  unfold MailboxHeap.visit
  rw [hc]
  cases hstate : c.state with
  | queued =>
      by_cases hlate : c.expiresAt < now
      · simp [Mailbox.swept, Mailbox.handedOut, Mailbox.Overdue, hstate, hlate]
      · simp [Mailbox.swept, Mailbox.handedOut, Mailbox.Overdue, hstate, hlate]
  | dispatched =>
      by_cases hlate : c.expiresAt < now
      · simp [Mailbox.swept, Mailbox.handedOut, Mailbox.Overdue, hstate, hlate]
      · simp [Mailbox.swept, Mailbox.handedOut, Mailbox.Overdue, hstate, hlate, hsame]
  | terminal => simp [Mailbox.swept, Mailbox.handedOut, Mailbox.Overdue, hstate, hsame]
  | expired => simp [Mailbox.swept, Mailbox.handedOut, Mailbox.Overdue, hstate, hsame]

/-- What the loop over pointers has in common with the pass over ids. -/
structure PassSim (index : AList (fun _ : String => Addr)) (q : List Addr) (s : Dispatching)
    (r : List Addr × Dispatching)
    (t : AList (fun _ : String => MailboxCommand) × List String × List MailboxCommand) : Prop where
  indexed : Indexed index r.2.cells
  mirrors : Mirrors index r.2.cells t.1
  linked : ∀ b, Linked index s.cells b → Linked index r.2.cells b
  tags : ∀ b, tagAt r.2.cells b = tagAt s.cells b
  subset : r.1 ⊆ q
  queue : r.1.map (nameAt r.2.cells) = t.2.1
  cmds : r.2.cmds.filterMap (tagAt r.2.cells) =
    s.cmds.filterMap (tagAt s.cells) ++ t.2.2.map fun c => (c.cmdId, c.expiresAt)

theorem pass_simulates (now : Int) {index : AList (fun _ : String => Addr)} (q : List Addr)
    {s : Dispatching} {byID : AList (fun _ : String => MailboxCommand)}
    (hindexed : Indexed index s.cells) (hmirrors : Mirrors index s.cells byID)
    (hlinked : ∀ a ∈ q, Linked index s.cells a) :
    PassSim index q s (Slice.pass (MailboxHeap.visit now) q s)
      (Mailbox.sweep now (q.map (nameAt s.cells)) byID) := by
  induction q generalizing s byID with
  | nil =>
      exact ⟨hindexed, hmirrors, fun _ h => h, fun _ => rfl, List.Subset.refl _, rfl, by
        simp [Slice.pass, Mailbox.sweep]⟩
  | cons a q ih =>
      obtain ⟨c, hc, hlookup⟩ := hlinked a List.mem_cons_self
      have hages := Mailbox.swept_ages now c
      have hname : nameAt s.cells a = c.cmdId := by simp [nameAt, hc]
      have hbyID : byID.lookup c.cmdId = some c := by
        rw [hmirrors, hlookup, Option.bind_some, hc]
      obtain ⟨byID', hbyID', hsweep⟩ := Mailbox.sweep_cons (q := q.map (nameAt s.cells)) hbyID
      -- the state after this round
      generalize hs' : (⟨s.cells.set a (Mailbox.swept now c),
        s.cmds ++ if (Mailbox.handedOut now c).isSome then [a] else []⟩ : Dispatching) = s'
      have hcells : s'.cells = s.cells.set a (Mailbox.swept now c) := by rw [← hs']
      have htags : ∀ b, tagAt s'.cells b = tagAt s.cells b := by
        intro b
        rw [hcells]
        exact tagAt_set hc hages.cmdId hages.expiresAt b
      have hnames : q.map (nameAt s'.cells) = q.map (nameAt s.cells) :=
        List.map_congr_left fun b _ => nameAt_of_tagAt (htags b)
      have hindexed' : Indexed index s'.cells := hcells ▸ hindexed.set hc hages.cmdId
      have hlinked' : ∀ b, Linked index s.cells b → Linked index s'.cells b := fun b hb =>
        hcells ▸ hb.set hc hages.cmdId
      have hmirrors' : Mirrors index s'.cells byID' := by
        intro id
        have hset : Mirrors index (s.cells.set a (Mailbox.swept now c))
            (byID.insert c.cmdId (Mailbox.swept now c)) := hmirrors.set hindexed hc hlookup
        rw [hcells, ← hset, hbyID']
        split
        next heq => rw [heq, AList.lookup_insert]
        next hne => rw [AList.lookup_insert_ne hne]
      have hrest := ih hindexed' hmirrors' fun b hb => hlinked' b (hlinked b (List.mem_cons_of_mem _ hb))
      rw [hnames] at hrest
      have hpass : Slice.pass (MailboxHeap.visit now) (a :: q) s =
          (if Mailbox.Overdue now c then (Slice.pass (MailboxHeap.visit now) q s').1
            else a :: (Slice.pass (MailboxHeap.visit now) q s').1,
            (Slice.pass (MailboxHeap.visit now) q s').2) := by
        simp only [Slice.pass, visit_eq hc, hs']
        by_cases hlate : Mailbox.Overdue now c
        · simp [hlate]
        · simp [hlate]
      rw [List.map_cons, hname, hsweep, hpass]
      refine ⟨hrest.indexed, hrest.mirrors, fun b hb => hrest.linked b (hlinked' b hb),
        fun b => (hrest.tags b).trans (htags b), ?_, ?_, ?_⟩
      · dsimp only
        split
        next => exact fun b hb => List.mem_cons_of_mem _ (hrest.subset hb)
        next => exact List.cons_subset_cons _ hrest.subset
      · dsimp only
        have hfirst : nameAt (Slice.pass (MailboxHeap.visit now) q s').2.cells a = c.cmdId :=
          (nameAt_of_tagAt ((hrest.tags a).trans (htags a))).trans hname
        split
        next => exact hrest.queue
        next => rw [List.map_cons, hrest.queue, hfirst]
      · have htag : tagAt s.cells a = some (c.cmdId, c.expiresAt) := by simp [tagAt, hc]
        dsimp only
        rw [hrest.cmds, funext htags, ← hs']
        cases hout : Mailbox.handedOut now c with
        | none => simp
        | some d =>
            obtain ⟨-, -, hexpires, hid, -⟩ := handedOut_spec hout
            simp [htag, hexpires, hid]

/-! ## Simulation -/

structure MailboxHeap.Holds (h : MailboxHeap) (m : Mailbox) : Prop where
  perAsset : m.perAsset = h.perAsset
  ttl : m.ttl = h.ttl
  indexed : Indexed h.byID h.cells
  mirrors : Mirrors h.byID h.cells m.byID
  linked : ∀ assetId, ∀ a ∈ (h.queue assetId).elems, Linked h.byID h.cells a
  queue : ∀ assetId, m.queue assetId = (h.queue assetId).elems.map (nameAt h.cells)
  cancels : ∀ assetId, m.cancels assetId = h.cancels assetId

namespace MailboxHeap

variable {h : MailboxHeap} {m : Mailbox}

theorem Holds.new (perAsset : Nat) (ttl : Int) : (new perAsset ttl).Holds (.new perAsset ttl) := by
  refine ⟨rfl, rfl, ?_, fun _ => rfl, ?_, fun _ => rfl, fun _ => rfl⟩
  · intro id a ha
    cases ha
  · intro assetId a ha
    cases ha

/-- A record is written through the pointer that the index has for its id. -/
theorem Holds.set (hholds : h.Holds m) {id : String} {a : Addr} {c c' : MailboxCommand}
    (ha : h.byID.lookup id = some a) (hc : h.cells[a]? = some c) (hages : c.Ages c') :
    Holds { h with cells := h.cells.set a c' } { m with byID := m.byID.insert id c' } := by
  obtain ⟨d, hd, hid⟩ := hholds.indexed id a ha
  rw [hc] at hd
  cases hd
  subst hid
  refine { hholds with indexed := ?_, mirrors := ?_, linked := ?_, queue := ?_ }
  · exact hholds.indexed.set hc hages.cmdId
  · exact hholds.mirrors.set hholds.indexed hc ha
  · intro assetId b hb
    exact (hholds.linked assetId b hb).set hc hages.cmdId
  · intro assetId
    refine (hholds.queue assetId).trans (List.map_congr_left fun b _ => ?_)
    exact (nameAt_of_tagAt (tagAt_set hc hages.cmdId hages.expiresAt b)).symm

theorem Holds.lookup (hholds : h.Holds m) {id : String} {a : Addr} (ha : h.byID.lookup id = some a) :
    ∃ c, h.cells[a]? = some c ∧ m.byID.lookup id = some c := by
  obtain ⟨c, hc, -⟩ := hholds.indexed id a ha
  exact ⟨c, hc, by rw [hholds.mirrors, ha, Option.bind_some, hc]⟩

theorem Holds.complete (hholds : h.Holds m) (cmdId : String) (result : Payload) :
    (h.complete cmdId result).Holds (m.complete cmdId result) := by
  unfold MailboxHeap.complete Mailbox.complete
  cases ha : h.byID.lookup cmdId with
  | none =>
      have hnone : m.byID.lookup cmdId = none := by rw [hholds.mirrors, ha, Option.bind_none]
      rw [hnone]
      exact hholds
  | some a =>
      obtain ⟨c, hc, hlookup⟩ := hholds.lookup ha
      dsimp only
      rw [hc, hlookup]
      exact hholds.set ha hc ⟨rfl, rfl, rfl, rfl, rfl, c.state.stage_le_two⟩

theorem Holds.cancel (hholds : h.Holds m) (assetId cmdId : String) :
    (∃ err, h.cancel assetId cmdId = .error err ∧ m.cancel assetId cmdId = .error err) ∨
      ∃ push h' m', h.cancel assetId cmdId = .ok (push, h') ∧
        m.cancel assetId cmdId = .ok (push, m') ∧ h'.Holds m' := by
  unfold MailboxHeap.cancel Mailbox.cancel
  cases ha : h.byID.lookup cmdId with
  | none =>
      have hnone : m.byID.lookup cmdId = none := by rw [hholds.mirrors, ha, Option.bind_none]
      rw [hnone]
      exact Or.inl ⟨_, rfl, rfl⟩
  | some a =>
      obtain ⟨c, hc, hlookup⟩ := hholds.lookup ha
      dsimp only
      rw [hc, hlookup]
      dsimp only
      cases c.state with
      | terminal => exact Or.inl ⟨_, rfl, rfl⟩
      | expired => exact Or.inl ⟨_, rfl, rfl⟩
      | queued =>
          exact Or.inr ⟨false, _, _, rfl, rfl,
            hholds.set ha hc ⟨rfl, rfl, rfl, rfl, rfl, c.state.stage_le_two⟩⟩
      | dispatched =>
          refine Or.inr ⟨true, _, _, rfl, rfl, { hholds with cancels := ?_ }⟩
          intro other
          unfold Mailbox.cancels MailboxHeap.cancels
          dsimp only
          by_cases hother : other = assetId
          · subst hother
            rw [AList.lookup_insert, AList.lookup_insert]
            exact congrArg (· ++ [cmdId]) (hholds.cancels other)
          · rw [AList.lookup_insert_ne hother, AList.lookup_insert_ne hother]
            exact hholds.cancels other

theorem Holds.nextDispatch (hholds : h.Holds m) (assetId : String) (now : Int) :
    (h.nextDispatch assetId now).1.Holds (m.nextDispatch assetId now).1 ∧
      (h.nextDispatch assetId now).2.1.filterMap (tagAt (h.nextDispatch assetId now).1.cells) =
        (m.nextDispatch assetId now).2.1.map (fun c => (c.cmdId, c.expiresAt)) ∧
      (h.nextDispatch assetId now).2.2 = (m.nextDispatch assetId now).2.2 := by
  have hsim := pass_simulates now (h.queue assetId).elems (s := ⟨h.cells, []⟩) hholds.indexed
    hholds.mirrors (hholds.linked assetId)
  rw [Slice.pass_elems, ← hholds.queue assetId] at hsim
  have hqueue : ∀ other, ((h.nextDispatch assetId now).1.queue other).elems =
      if other = assetId then ((h.queue assetId).compact (visit now) ⟨h.cells, []⟩).1.elems
      else (h.queue other).elems := by
    intro other
    unfold MailboxHeap.nextDispatch MailboxHeap.queue
    dsimp only
    split
    next heq => rw [heq, AList.lookup_insert, Option.getD_some]
    next hne => rw [AList.lookup_insert_ne hne]
  refine ⟨⟨hholds.perAsset, hholds.ttl, hsim.indexed, hsim.mirrors, ?_, ?_, ?_⟩, ?_, ?_⟩
  · intro other a ha
    rw [hqueue] at ha
    split at ha
    next => exact hsim.linked a (hholds.linked assetId a (hsim.subset ha))
    next => exact hsim.linked a (hholds.linked other a ha)
  · intro other
    rw [Mailbox.queue_nextDispatch, hqueue]
    split
    next => exact hsim.queue.symm
    next =>
      rw [hholds.queue other]
      exact List.map_congr_left fun b _ => (nameAt_of_tagAt (hsim.tags b)).symm
  · intro other
    unfold Mailbox.nextDispatch MailboxHeap.nextDispatch Mailbox.cancels MailboxHeap.cancels
    dsimp only
    by_cases hother : other = assetId
    · subst hother
      rw [AList.lookup_erase, AList.lookup_erase]
    · rw [AList.lookup_erase_ne hother, AList.lookup_erase_ne hother]
      exact hholds.cancels other
  · exact hsim.cmds
  · exact (hholds.cancels assetId).symm

theorem Holds.counts (hholds : h.Holds m) (assetId : String) :
    ((m.queue assetId).filter fun id => m.Pending id).length =
      ((h.queue assetId).elems.filter fun a => Counts h.cells a).length := by
  rw [hholds.queue assetId, List.filter_map, List.length_map]
  congr 1
  apply List.filter_congr
  intro a ha
  obtain ⟨c, hc, hlookup⟩ := hholds.linked assetId a ha
  have hname : nameAt h.cells a = c.cmdId := by simp [nameAt, hc]
  have hrecord : m.byID.lookup c.cmdId = some c := by
    rw [hholds.mirrors, hlookup, Option.bind_some, hc]
  refine decide_eq_decide.mpr ?_
  rw [hname, Mailbox.Pending, hrecord, Counts, hc]

theorem Linked.push {index : AList (fun _ : String => Addr)} {cells : Cells} {b : Addr}
    (h : Linked index cells b) {name : String} (hnew : index.lookup name = none) (a : Addr)
    (cell : MailboxCommand) :
    Linked (index.insert name a) (cells ++ [cell]) b ∧
      nameAt (cells ++ [cell]) b = nameAt cells b := by
  obtain ⟨c, hc, hlookup⟩ := h
  obtain ⟨hb, -⟩ := List.getElem?_eq_some_iff.mp hc
  have hold : (cells ++ [cell])[b]? = some c := by rw [List.getElem?_append_left hb, hc]
  have hne : c.cmdId ≠ name := by
    intro heq
    rw [heq, hnew] at hlookup
    cases hlookup
  exact ⟨⟨c, hold, (AList.lookup_insert_ne hne).trans hlookup⟩, by simp [nameAt, hold, hc]⟩

/-- A new record is allocated behind the others and linked under its id. -/
theorem Holds.push (hholds : h.Holds m) {d : Dispatch} (hnew : h.byID.lookup d.cmdId = none)
    (now : Int) :
    Holds { h with
        cells := h.cells ++ [⟨d.cmdId, d.action, d.params, d.timeoutSec, .queued, now, now + h.ttl, none⟩]
        byAsset := h.byAsset.insert d.assetId ((h.queue d.assetId).append h.cells.length)
        byID := h.byID.insert d.cmdId h.cells.length }
      { m with
        byAsset := m.byAsset.insert d.assetId (m.queue d.assetId ++ [d.cmdId])
        byID := m.byID.insert d.cmdId
          ⟨d.cmdId, d.action, d.params, d.timeoutSec, .queued, now, now + m.ttl, none⟩ } := by
  rw [hholds.ttl]
  generalize hcell : (⟨d.cmdId, d.action, d.params, d.timeoutSec, .queued, now, now + h.ttl, none⟩ :
    MailboxCommand) = cell
  have hname : cell.cmdId = d.cmdId := by rw [← hcell]
  have hold : ∀ {b : Addr} {c : MailboxCommand}, h.cells[b]? = some c →
      (h.cells ++ [cell])[b]? = some c := by
    intro b c hc
    obtain ⟨hb, -⟩ := List.getElem?_eq_some_iff.mp hc
    rw [List.getElem?_append_left hb, hc]
  have hlast : (h.cells ++ [cell])[h.cells.length]? = some cell := List.getElem?_concat_length
  have hlinked : ∀ assetId, ∀ b ∈ (h.queue assetId).elems,
      Linked (h.byID.insert d.cmdId h.cells.length) (h.cells ++ [cell]) b ∧
        nameAt (h.cells ++ [cell]) b = nameAt h.cells b := fun assetId b hb =>
    Linked.push (hholds.linked assetId b hb) hnew h.cells.length cell
  refine ⟨hholds.perAsset, rfl, ?_, ?_, ?_, ?_, hholds.cancels⟩
  · intro id b hb
    dsimp only at hb ⊢
    by_cases hid : id = d.cmdId
    · subst hid
      rw [AList.lookup_insert] at hb
      cases hb
      exact ⟨cell, hlast, hname⟩
    · rw [AList.lookup_insert_ne hid] at hb
      obtain ⟨c, hc, hcname⟩ := hholds.indexed id b hb
      exact ⟨c, hold hc, hcname⟩
  · intro id
    dsimp only
    by_cases hid : id = d.cmdId
    · subst hid
      rw [AList.lookup_insert, AList.lookup_insert, Option.bind_some, hlast]
    · rw [AList.lookup_insert_ne hid, AList.lookup_insert_ne hid, hholds.mirrors]
      cases hb : h.byID.lookup id with
      | none => rfl
      | some b =>
          obtain ⟨c, hc, -⟩ := hholds.indexed id b hb
          rw [Option.bind_some, Option.bind_some, hc, hold hc]
  · intro assetId b hb
    unfold MailboxHeap.queue at hb
    dsimp only at hb ⊢
    by_cases hasset : assetId = d.assetId
    · subst hasset
      rw [AList.lookup_insert, Option.getD_some, Slice.elems_append, List.mem_append] at hb
      rcases hb with hb | hb
      · exact (hlinked d.assetId b hb).1
      · rw [List.mem_singleton] at hb
        subst hb
        exact ⟨cell, hlast, by rw [hname, AList.lookup_insert]⟩
    · rw [AList.lookup_insert_ne hasset] at hb
      exact (hlinked assetId b hb).1
  · intro assetId
    unfold MailboxHeap.queue Mailbox.queue
    dsimp only
    by_cases hasset : assetId = d.assetId
    · subst hasset
      have hnew : nameAt (h.cells ++ [cell]) h.cells.length = d.cmdId := by
        simp [nameAt, hname]
      rw [AList.lookup_insert, AList.lookup_insert, Option.getD_some, Option.getD_some,
        Slice.elems_append, List.map_append, List.map_singleton, hnew]
      refine congrArg (· ++ [d.cmdId]) ((hholds.queue d.assetId).trans ?_)
      exact List.map_congr_left fun b hb => (hlinked d.assetId b hb).2.symm
    · rw [AList.lookup_insert_ne hasset, AList.lookup_insert_ne hasset]
      refine (hholds.queue assetId).trans (List.map_congr_left fun b hb => ?_)
      exact (hlinked assetId b hb).2.symm

theorem Holds.submit (hholds : h.Holds m) (d : Dispatch) (now : Int) :
    (∃ err, h.submit d now = .error err ∧ m.submit d now = .error err) ∨
      ∃ h' m', h.submit d now = .ok h' ∧ m.submit d now = .ok m' ∧ h'.Holds m' := by
  unfold MailboxHeap.submit Mailbox.submit
  cases ha : h.byID.lookup d.cmdId with
  | some a =>
      obtain ⟨c, -, hlookup⟩ := hholds.lookup ha
      rw [hlookup]
      exact Or.inl ⟨_, rfl, rfl⟩
  | none =>
      have hnone : m.byID.lookup d.cmdId = none := by rw [hholds.mirrors, ha, Option.bind_none]
      rw [hnone]
      dsimp only
      rw [hholds.counts]
      by_cases hfull : h.perAsset ≤ ((h.queue d.assetId).elems.filter fun a => Counts h.cells a).length
      · rw [if_pos hfull, if_pos (hholds.perAsset ▸ hfull)]
        exact Or.inl ⟨_, rfl, rfl⟩
      · rw [if_neg hfull, if_neg (hholds.perAsset ▸ hfull)]
        exact Or.inr ⟨_, _, rfl, rfl, hholds.push ha now⟩

end MailboxHeap

/-! ## Runs -/

structure HeapRun where
  heap : MailboxHeap
  log : MailboxLog

namespace HeapRun

def start (perAsset : Nat) (ttl : Int) : HeapRun := ⟨.new perAsset ttl, .empty⟩

def step (r : HeapRun) : MailboxOp → HeapRun
  | .submit d now =>
      match r.heap.submit d now with
      | .error _ => r
      | .ok h => ⟨h, r.log.submit d⟩
  | .cancel assetId cmdId =>
      match r.heap.cancel assetId cmdId with
      | .error _ => r
      | .ok (push, h) => ⟨h, r.log.cancel cmdId push⟩
  | .nextDispatch assetId now =>
      let taken := r.heap.nextDispatch assetId now
      -- the caller reads the records behind the pointers it gets
      ⟨taken.1, r.log.handOut assetId now (taken.2.1.filterMap fun a => taken.1.cells[a]?)⟩
  | .complete cmdId result => { r with heap := r.heap.complete cmdId result }

def run (r : HeapRun) (ops : List MailboxOp) : HeapRun := ops.foldl step r

/-- The heap holds a mailbox that is in order with the same log. -/
def Simulates (r : HeapRun) : Prop :=
  ∃ m, r.heap.Holds m ∧ MailboxRun.Disciplined ⟨m, r.log⟩

theorem Simulates.start (perAsset : Nat) (ttl : Int) : Simulates (start perAsset ttl) :=
  ⟨_, .new perAsset ttl, .start perAsset ttl⟩

/-- The log takes only the parts of the records that never change. -/
theorem handOut_eq {l : MailboxLog} {assetId : String} {now : Int} {cmds cmds' : List MailboxCommand}
    (h : cmds.map (fun c => (c.cmdId, c.expiresAt)) = cmds'.map fun c => (c.cmdId, c.expiresAt)) :
    l.handOut assetId now cmds = l.handOut assetId now cmds' := by
  have hmap : ∀ cs : List MailboxCommand,
      cs.map (fun c => (⟨assetId, c.cmdId, now, c.expiresAt⟩ : Handout)) =
        (cs.map fun c => (c.cmdId, c.expiresAt)).map fun p => ⟨assetId, p.1, now, p.2⟩ := by
    intro cs
    rw [List.map_map]
    rfl
  unfold MailboxLog.handOut
  rw [hmap, hmap, h]

theorem Simulates.step {r : HeapRun} (h : Simulates r) (op : MailboxOp) : Simulates (r.step op) := by
  obtain ⟨m, hholds, hdisciplined⟩ := h
  have hnext := hdisciplined.step op
  cases op with
  | submit d now =>
      rcases hholds.submit d now with ⟨err, hheap, -⟩ | ⟨h', m', hheap, hmailbox, hholds'⟩
      · simp only [HeapRun.step, hheap]
        exact ⟨m, hholds, hdisciplined⟩
      · simp only [HeapRun.step, hheap]
        simp only [MailboxRun.step, hmailbox] at hnext
        exact ⟨m', hholds', hnext⟩
  | cancel assetId cmdId =>
      rcases hholds.cancel assetId cmdId with ⟨err, hheap, -⟩ | ⟨push, h', m', hheap, hmailbox, hholds'⟩
      · simp only [HeapRun.step, hheap]
        exact ⟨m, hholds, hdisciplined⟩
      · simp only [HeapRun.step, hheap]
        simp only [MailboxRun.step, hmailbox] at hnext
        exact ⟨m', hholds', hnext⟩
  | nextDispatch assetId now =>
      obtain ⟨hholds', hcmds, -⟩ := hholds.nextDispatch assetId now
      refine ⟨_, hholds', ?_⟩
      have hlog : r.log.handOut assetId now ((r.heap.nextDispatch assetId now).2.1.filterMap
            fun a => (r.heap.nextDispatch assetId now).1.cells[a]?) =
          r.log.handOut assetId now (m.nextDispatch assetId now).2.1 := by
        apply handOut_eq
        rw [List.map_filterMap]
        exact hcmds
      simp only [HeapRun.step, hlog]
      exact hnext
  | complete cmdId result => exact ⟨_, hholds.complete cmdId result, hnext⟩

theorem Simulates.run {r : HeapRun} (h : Simulates r) (ops : List MailboxOp) :
    Simulates (r.run ops) := by
  induction ops generalizing r with
  | nil => exact h
  | cons op ops ih => exact ih (h.step op)

theorem step_perAsset (r : HeapRun) (op : MailboxOp) :
    (r.step op).heap.perAsset = r.heap.perAsset := by
  cases op with
  | submit d now =>
      simp only [step, MailboxHeap.submit]
      cases r.heap.byID.lookup d.cmdId with
      | some a => rfl
      | none =>
          dsimp only
          split
          next => rfl
          next hok =>
            split at hok
            next => cases hok
            next =>
              cases hok
              rfl
  | cancel assetId cmdId =>
      simp only [step, MailboxHeap.cancel]
      cases r.heap.byID.lookup cmdId with
      | none => rfl
      | some a =>
          dsimp only
          cases r.heap.cells[a]? with
          | none => rfl
          | some c =>
              dsimp only
              cases c.state <;> rfl
  | nextDispatch assetId now => rfl
  | complete cmdId result =>
      simp only [step, MailboxHeap.complete]
      cases r.heap.byID.lookup cmdId with
      | none => rfl
      | some a =>
          dsimp only
          cases r.heap.cells[a]? with
          | none => rfl
          | some c => rfl

theorem run_perAsset (r : HeapRun) (ops : List MailboxOp) :
    (r.run ops).heap.perAsset = r.heap.perAsset := by
  induction ops generalizing r with
  | nil => rfl
  | cons op ops ih => exact (ih (r.step op)).trans (r.step_perAsset op)

def queueIds (r : HeapRun) (assetId : String) : List String :=
  (r.heap.queue assetId).elems.map (nameAt r.heap.cells)

def Pending (r : HeapRun) (id : String) : Prop :=
  ∃ a ∈ r.heap.byID.lookup id, MailboxHeap.Counts r.heap.cells a

instance (r : HeapRun) (id : String) : Decidable (r.Pending id) := by
  unfold Pending
  cases r.heap.byID.lookup id with
  | none => exact isFalse fun h => by simp at h
  | some a => exact decidable_of_iff (MailboxHeap.Counts r.heap.cells a) (by simp)

structure InOrder (r : HeapRun) (perAsset : Nat) : Prop where
  /-- Every pointer in a queue is the entry of the index for the id it points to. -/
  linked : ∀ assetId, ∀ a ∈ (r.heap.queue assetId).elems, Linked r.heap.byID r.heap.cells a
  /-- No id occurs twice in a queue or in two queues. -/
  nodup : ∀ assetId, (r.queueIds assetId).Nodup
  apart : ∀ assetId other id, id ∈ r.queueIds assetId → id ∈ r.queueIds other → assetId = other
  /-- Of the commands submitted to an asset no more than the limit are pending. -/
  limit : ∀ assetId, ((r.log.idsOf assetId).filter fun id => r.Pending id).length ≤ perAsset
  /-- No id is handed out twice, -/
  once : (r.log.handouts.map Handout.cmdId).Nodup
  /-- only for its own asset, -/
  asset : ∀ out ∈ r.log.handouts, (out.assetId, out.cmdId) ∈ r.log.submitted
  /-- in the order of submission, -/
  order : ∀ assetId, (r.log.handedOutTo assetId).Sublist (r.log.idsOf assetId)
  /-- not if it was cancelled while it was queued, -/
  cancelled : ∀ id ∈ r.log.cancelled, id ∉ r.log.handouts.map Handout.cmdId
  /-- and not later than its record allows. -/
  time : ∀ out ∈ r.log.handouts, out.time ≤ out.expiresAt ∧
    ∃ a c, r.heap.byID.lookup out.cmdId = some a ∧ r.heap.cells[a]? = some c ∧
      c.expiresAt = out.expiresAt

theorem pending_iff {r : HeapRun} {m : Mailbox} (hholds : r.heap.Holds m) (id : String) :
    r.Pending id ↔ m.Pending id := by
  unfold Pending Mailbox.Pending MailboxHeap.Counts
  rw [hholds.mirrors]
  cases r.heap.byID.lookup id with
  | none => simp
  | some a => simp

theorem Simulates.inOrder {r : HeapRun} (hsim : Simulates r) : r.InOrder r.heap.perAsset := by
  obtain ⟨m, hholds, h⟩ := hsim
  have hqueue : ∀ assetId, r.queueIds assetId = m.queue assetId := fun assetId =>
    (hholds.queue assetId).symm
  refine ⟨hholds.linked, ?_, ?_, ?_, h.nodup_handouts, fun out hout => h.mem_submitted hout,
    h.handedOutTo, fun id hid => (h.cancelled id hid).2.2, ?_⟩
  · intro assetId
    rw [hqueue]
    exact h.nodup_queue assetId
  · intro assetId other id hid hother
    rw [hqueue] at hid hother
    exact h.asset_unique (h.mem_queue hid) (h.mem_queue hother)
  · intro assetId
    have hcount := h.limit_submitted assetId
    rw [hholds.perAsset] at hcount
    simp only [pending_iff hholds]
    exact hcount
  · intro out hout
    obtain ⟨htime, c, hc, hexpires, -⟩ := h.handouts out hout
    refine ⟨htime, ?_⟩
    rw [hholds.mirrors] at hc
    obtain ⟨a, ha, hc⟩ := Option.bind_eq_some_iff.mp hc
    exact ⟨a, c, ha, hc, hexpires⟩

end HeapRun

/-- After every sequence of calls, at any times, the two indexes agree, no asset is over its
limit, and every command was handed out at most once, to its own asset, in order, uncancelled
and in time. -/
theorem mailbox_in_order (perAsset : Nat) (ttl : Int) (ops : List MailboxOp) :
    ((HeapRun.start perAsset ttl).run ops).InOrder perAsset := by
  have hlimit : ((HeapRun.start perAsset ttl).run ops).heap.perAsset = perAsset :=
    (HeapRun.start perAsset ttl).run_perAsset ops
  have horder := ((HeapRun.Simulates.start perAsset ttl).run ops).inOrder
  rw [hlimit] at horder
  exact horder

end TomAgent.Connector
