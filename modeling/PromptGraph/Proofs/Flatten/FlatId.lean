/-
Flat ids tell where a node comes from, as long as no id holds the
character that ends the beginnings which instances put before ids.

A flat id is read from its end: what follows the last such character is
the node's own id, and what stands before is the text of the chain, to
be read in the same way (`pathText_append_inj`). So different chains
have different texts, and flat ids of different nodes differ
(`flatId_inj`). The same reading shows that a flat id begins with the text
of a chain only if the node is found along it
(`pathText_prefix_flatId_iff`). For ids that do hold the character nothing
of this is true, and entries may be lost.
-/
import PromptGraph.Proofs.Flatten.Chain

namespace PromptGraph.Flatten

open Editor

variable {ctx : Context} {root : Level}

-- ==== plain ids

/-- The id holds no character that could end an instance's beginning. -/
def Plain (i : Id) : Prop := '_' ∉ i.text.toList

instance (i : Id) : Decidable (Plain i) :=
  inferInstanceAs (Decidable (¬ _))

theorem pathText_cons_toList (f : Frame) (p : List Frame) :
    (pathText (f :: p)).toList
      = (pathText p).toList ++ ("sg" ++ f.node.id.text).toList ++ ['_'] := by
  show (pathText p ++ "sg" ++ f.node.id.text ++ "_").toList = _
  simp only [String.toList_append, List.append_assoc]
  rfl

/-- Whatever a chain's text ends in holds its closing character. -/
theorem mem_of_pathText_eq_append {p : List Frame} {a t : List Char}
    (h : (pathText p).toList = a ++ t) (ht : t ≠ []) : '_' ∈ t := by
  cases p with
  | nil => exact absurd (List.append_eq_nil_iff.1 h.symm).2 ht
  | cons f p =>
      rcases List.eq_nil_or_concat t with rfl | ⟨s, c, rfl⟩
      · exact absurd rfl ht
      · rw [pathText_cons_toList, List.concat_eq_append,
          ← List.append_assoc] at h
        have hlast := (List.append_inj' h rfl).2
        rw [List.concat_eq_append, ← hlast]
        exact List.mem_append_right _ (List.mem_singleton.2 rfl)

variable {p q : List Frame}

/-- The text of a chain and what is put after it, without the closing
character, can be read back. -/
theorem pathText_append_inj {x y : String} (hx : '_' ∉ x.toList)
    (hy : '_' ∉ y.toList) (h : pathText p ++ x = pathText q ++ y) :
    pathText p = pathText q ∧ x = y := by
  have hlist : (pathText p).toList ++ x.toList
      = (pathText q).toList ++ y.toList := by
    rw [← String.toList_append, ← String.toList_append, h]
  -- one text goes on where the other ends, with nothing or with an end
  rcases List.append_eq_append_iff.1 hlist with ⟨t, hq, ht⟩ | ⟨t, hp, ht⟩
  · have hnil : t = [] := by
      by_contra hne
      refine hx ?_
      rw [ht]
      exact List.mem_append_left _ (mem_of_pathText_eq_append hq hne)
    subst hnil
    rw [List.append_nil] at hq
    exact ⟨(String.toList_injective hq).symm, String.toList_injective ht⟩
  · have hnil : t = [] := by
      by_contra hne
      refine hy ?_
      rw [ht]
      exact List.mem_append_left _ (mem_of_pathText_eq_append hp hne)
    subst hnil
    rw [List.append_nil] at hp
    exact ⟨String.toList_injective hp, (String.toList_injective ht).symm⟩

-- ==== chains by their text

/-- The ids of the nodes at the end of every chain are plain. -/
def PlainNodes (ctx : Context) (root : Level) : Prop :=
  ∀ p, Chain ctx root p → ∀ n ∈ (levelAt root p).nodes, Plain n.id

theorem plain_sg {i : Id} (hi : Plain i) :
    '_' ∉ ("sg" ++ i.text).toList := by
  rw [String.toList_append, List.mem_append]
  rintro (h | h)
  · exact absurd h (by decide)
  · exact hi h

/-- Different chains have different texts. -/
theorem pathText_inj (hw : WellNamed ctx root) (hplain : PlainNodes ctx root)
    (hp : Chain ctx root p) (hq : Chain ctx root q)
    (h : pathText p = pathText q) : p = q := by
  induction p generalizing q with
  | nil =>
      cases q with
      | nil => rfl
      | cons g q =>
          have hlist := congrArg String.toList h
          rw [pathText_cons_toList] at hlist
          simp [pathText] at hlist
  | cons f p ih =>
      cases q with
      | nil =>
          have hlist := congrArg String.toList h
          rw [pathText_cons_toList] at hlist
          simp [pathText] at hlist
      | cons g q =>
          have hcut : pathText p ++ ("sg" ++ f.node.id.text)
              = pathText q ++ ("sg" ++ g.node.id.text) := by
            have hlist := congrArg String.toList h
            rw [pathText_cons_toList, pathText_cons_toList] at hlist
            have hinit := (List.append_inj' hlist rfl).1
            rw [← String.toList_append, ← String.toList_append] at hinit
            exact String.toList_injective hinit
          obtain ⟨htext, hid⟩ := pathText_append_inj
            (plain_sg (hplain p hp.tail _ hp.head_mem))
            (plain_sg (hplain q hq.tail _ hq.head_mem)) hcut
          obtain rfl := ih hp.tail hq.tail htext
          have hfg : f.node.id = g.node.id := by
            have hlist := congrArg String.toList hid
            rw [String.toList_append, String.toList_append] at hlist
            have htail := (List.append_inj hlist rfl).2
            exact congrArg Id.mk (String.toList_injective htail)
          rw [hp.head_eq hw hq hfg]

/-- A flat id names one chain and one id. -/
theorem flatId_inj (hw : WellNamed ctx root) (hplain : PlainNodes ctx root)
    (hp : Chain ctx root p) (hq : Chain ctx root q) {i j : Id} (hi : Plain i)
    (hj : Plain j) (h : flatId p i = flatId q j) :
    p = q ∧ i = j := by
  obtain ⟨htext, hid⟩ := pathText_append_inj hi hj h
  exact ⟨pathText_inj hw hplain hp hq htext, congrArg Id.mk hid⟩

-- ==== what begins flat ids

/-- Flat ids along a chain begin with its text. -/
theorem pathText_prefix_of_suffix (h : q <:+ p) :
    (pathText q).toList <+: (pathText p).toList := by
  induction p with
  | nil =>
      obtain rfl := List.suffix_nil.1 h
      exact List.prefix_refl _
  | cons f p ih =>
      rcases List.suffix_cons_iff.1 h with rfl | h
      · exact List.prefix_refl _
      · rw [pathText_cons_toList, List.append_assoc]
        exact (ih h).trans (List.prefix_append _ _)

/-- The text of a chain does not end inside what is put after another
text without the closing character. -/
theorem pathText_prefix_of_append {x : List Char} (hx : '_' ∉ x)
    (h : (pathText q).toList <+: (pathText p).toList ++ x) :
    (pathText q).toList <+: (pathText p).toList := by
  obtain ⟨t, ht⟩ := h
  rcases List.append_eq_append_iff.1 ht with ⟨a, hp, -⟩ | ⟨a, hq, hxa⟩
  · exact ⟨a, hp.symm⟩
  · have hnil : a = [] := by
      by_contra hne
      refine hx ?_
      rw [hxa]
      exact List.mem_append_left _ (mem_of_pathText_eq_append hq hne)
    subst hnil
    rw [List.append_nil] at hq
    exact ⟨[], (List.append_nil _).trans hq⟩

/-- If the text of a chain begins that of another, so does the chain. -/
theorem suffix_of_pathText_prefix (hw : WellNamed ctx root)
    (hplain : PlainNodes ctx root) (hp : Chain ctx root p)
    (hq : Chain ctx root q) (h : (pathText q).toList <+: (pathText p).toList) :
    q <:+ p := by
  induction p with
  | nil =>
      have hnil := List.prefix_nil.1 h
      obtain rfl :=
        pathText_inj hw hplain hq .nil (String.toList_injective hnil)
      exact List.suffix_refl _
  | cons f p ih =>
      obtain ⟨t, ht⟩ := h
      rcases List.eq_nil_or_concat t with rfl | ⟨s, c, rfl⟩
      · rw [List.append_nil] at ht
        obtain rfl :=
          pathText_inj hw hplain hq hp (String.toList_injective ht)
        exact List.suffix_refl _
      · rw [pathText_cons_toList, List.concat_eq_append,
          ← List.append_assoc] at ht
        have hcut := (List.append_inj' ht rfl).1
        have hbegin := pathText_prefix_of_append
          (plain_sg (hplain p hp.tail _ hp.head_mem)) ⟨s, hcut⟩
        exact (ih hp.tail hbegin).trans (List.suffix_cons _ _)

/-- A flat id begins with the text of a chain exactly if it is that of a
node found along it. -/
theorem pathText_prefix_flatId_iff (hw : WellNamed ctx root)
    (hplain : PlainNodes ctx root) (hp : Chain ctx root p)
    (hq : Chain ctx root q) {i : Id} (hi : Plain i) :
    (pathText q).toList <+: (flatId p i).toList ↔ q <:+ p := by
  unfold flatId
  rw [String.toList_append]
  constructor
  · intro h
    exact suffix_of_pathText_prefix hw hplain hp hq
      (pathText_prefix_of_append hi h)
  · intro h
    exact (pathText_prefix_of_suffix h).trans (List.prefix_append _ _)

end PromptGraph.Flatten
