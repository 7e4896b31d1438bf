import TomAgent.Core.BigEndian

/-!
# Self-delimiting encodings

An encoding is self-delimiting on a domain when its output can be split off the
front of any longer text.  Fixed-width encodings are, and the property is kept
by concatenation, by a length prefix and by a counted repetition, which is how
binary formats are put together.
-/

namespace TomAgent.PrefixCode

variable {α β γ : Type}

def SelfDelimiting (dom : α → Prop) (enc : α → List γ) : Prop :=
  ∀ a b s t, dom a → dom b → enc a ++ s = enc b ++ t → a = b ∧ s = t

theorem SelfDelimiting.inj {dom : α → Prop} {enc : α → List γ} (h : SelfDelimiting dom enc)
    {a b : α} (ha : dom a) (hb : dom b) (heq : enc a = enc b) : a = b := by
  apply (h a b [] [] ha hb _).1
  rw [heq]

theorem selfDelimiting_of_length {dom : α → Prop} {enc : α → List γ} {width : Nat}
    (hlength : ∀ a, dom a → (enc a).length = width)
    (hinj : ∀ a b, dom a → dom b → enc a = enc b → a = b) : SelfDelimiting dom enc := by
  intro a b s t ha hb heq
  have hsame : (enc a).length = (enc b).length := by rw [hlength a ha, hlength b hb]
  have hsplit := List.append_inj heq hsame
  exact ⟨hinj a b ha hb hsplit.1, hsplit.2⟩

theorem SelfDelimiting.append {domA : α → Prop} {encA : α → List γ} {domB : β → Prop}
    {encB : β → List γ} (hA : SelfDelimiting domA encA) (hB : SelfDelimiting domB encB) :
    SelfDelimiting (fun p : α × β => domA p.1 ∧ domB p.2) fun p => encA p.1 ++ encB p.2 := by
  intro p q s t hp hq heq
  rw [List.append_assoc, List.append_assoc] at heq
  have hfirst := hA p.1 q.1 _ _ hp.1 hq.1 heq
  have hsecond := hB p.2 q.2 s t hp.2 hq.2 hfirst.2
  exact ⟨Prod.ext hfirst.1 hsecond.1, hsecond.2⟩

/-- A text behind its length. -/
theorem SelfDelimiting.prefixed {dom : Nat → Prop} {enc : Nat → List γ}
    (h : SelfDelimiting dom enc) :
    SelfDelimiting (fun text : List γ => dom text.length) fun text => enc text.length ++ text := by
  intro a b s t ha hb heq
  rw [List.append_assoc, List.append_assoc] at heq
  have hlength := h a.length b.length _ _ ha hb heq
  exact List.append_inj hlength.2 hlength.1

theorem SelfDelimiting.flatMap {dom : α → Prop} {enc : α → List γ} (h : SelfDelimiting dom enc)
    {xs ys : List α} {s t : List γ} (hlength : xs.length = ys.length) (hxs : ∀ x ∈ xs, dom x)
    (hys : ∀ y ∈ ys, dom y) (heq : xs.flatMap enc ++ s = ys.flatMap enc ++ t) :
    xs = ys ∧ s = t := by
  induction xs generalizing ys with
  | nil =>
      have hnil : ys = [] := List.eq_nil_of_length_eq_zero hlength.symm
      subst hnil
      exact ⟨rfl, heq⟩
  | cons x xs ih =>
      cases ys with
      | nil => simp at hlength
      | cons y ys =>
          rw [List.flatMap_cons, List.flatMap_cons, List.append_assoc, List.append_assoc] at heq
          have hfirst := h x y _ _ (hxs x List.mem_cons_self) (hys y List.mem_cons_self) heq
          have hrest := ih (Nat.succ.inj hlength) (fun z hz => hxs z (List.mem_cons_of_mem x hz))
            (fun z hz => hys z (List.mem_cons_of_mem y hz)) hfirst.2
          rw [hfirst.1, hrest.1]
          exact ⟨rfl, hrest.2⟩

/-- A list behind the number of its elements. -/
theorem SelfDelimiting.counted {domN : Nat → Prop} {encN : Nat → List γ} {dom : α → Prop}
    {enc : α → List γ} (hN : SelfDelimiting domN encN) (h : SelfDelimiting dom enc) :
    SelfDelimiting (fun xs : List α => domN xs.length ∧ ∀ x ∈ xs, dom x) fun xs =>
      encN xs.length ++ xs.flatMap enc := by
  intro xs ys s t hxs hys heq
  rw [List.append_assoc, List.append_assoc] at heq
  have hcount := hN xs.length ys.length _ _ hxs.1 hys.1 heq
  exact h.flatMap hcount.1 hxs.2 hys.2 hcount.2

theorem selfDelimiting_bigEndian (width : Nat) :
    SelfDelimiting (· < 256 ^ width) (BigEndian.encode width) := by
  apply selfDelimiting_of_length
  · intro n _
    exact BigEndian.encode_length width n
  · intro m n hm hn heq
    exact BigEndian.encode_inj hm hn heq

end TomAgent.PrefixCode
