/-
Where paths lead, as far as text can tell.

A cleaned path goes up some way and then down through names (`Way`).
Cleaning is a walk that keeps such a way at every step
(`exists_tidy_foldl`), and it does not matter whether the rest of a path
is cleaned before it is walked (`foldl_cleanParts`). So a path that is
joined to a directory leads to where its own way leads from there:
up through the names of the directory, then down (`Way.then_`).

From this comes the exact condition for a joined path to lie inside the
directory (`inside_join_iff`). It may leave the directory, but then it has
to come back through the same names.
-/
import Mathlib.Data.List.Basic
import Mathlib.Data.List.Induction
import Mathlib.Data.List.TakeWhile
import PromptGraph.Path

namespace PromptGraph.Path

-- ==== components

/-- A slash splits what stands before and behind it. -/
theorem splitChars_append (acc s t : List Char) :
    splitChars acc (s ++ '/' :: t) = splitChars acc s ++ splitChars [] t := by
  induction s generalizing acc with
  | nil => simp [splitChars]
  | cons c s ih =>
      by_cases hc : c = '/'
      · simp [splitChars, hc, ih]
      · simp [splitChars, hc, ih]

/-- The components of two paths with a slash between them. -/
theorem components_slash (a b : String) :
    components (a ++ "/" ++ b) = components a ++ components b := by
  unfold components
  have hlist : (a ++ "/" ++ b).toList = a.toList ++ '/' :: b.toList := by
    rw [String.toList_append, String.toList_append, List.append_assoc]
    rfl
  rw [hlist, splitChars_append, List.map_append]

/-- The components of a path that is put together. -/
theorem components_intercalate {l : List String} (h : l ≠ []) :
    components ("/".intercalate l) = l.flatMap components := by
  induction l with
  | nil => exact absurd rfl h
  | cons a l ih =>
      cases l with
      | nil => simp [String.intercalate_singleton]
      | cons b l =>
          rw [String.intercalate_cons_cons, components_slash,
            ih (List.cons_ne_nil b l)]
          rfl

theorem splitChars_of_notMem {acc s : List Char} (h : '/' ∉ s) :
    splitChars acc s = [acc.reverse ++ s] := by
  induction s generalizing acc with
  | nil => simp [splitChars]
  | cons c s ih =>
      obtain ⟨hc, hs⟩ := List.ne_and_not_mem_of_not_mem_cons h
      simp [splitChars, Ne.symm hc, ih hs]

variable {p : String}

/-- Without a slash there is one component. -/
theorem components_of_notMem (h : '/' ∉ p.toList) :
    components p = [p] := by
  unfold components
  rw [splitChars_of_notMem h]
  simp

/-- No component has a slash. -/
theorem notMem_of_mem_splitChars {acc s part : List Char}
    (hacc : '/' ∉ acc) (h : part ∈ splitChars acc s) : '/' ∉ part := by
  induction s generalizing acc with
  | nil =>
      rw [splitChars, List.mem_singleton] at h
      rw [h, List.mem_reverse]
      exact hacc
  | cons c s ih =>
      rw [splitChars] at h
      split at h
      · rcases List.mem_cons.1 h with rfl | h
        · rw [List.mem_reverse]
          exact hacc
        · exact ih List.not_mem_nil h
      · next hc =>
        refine ih (fun hmem => ?_) h
        rcases List.mem_cons.1 hmem with heq | hmem
        · exact hc heq.symm
        · exact hacc hmem

/-- No component has a slash in it. -/
theorem notMem_of_mem_components {p part : String}
    (h : part ∈ components p) : '/' ∉ part.toList := by
  obtain ⟨cs, hcs, rfl⟩ := List.mem_map.1 h
  rw [String.toList_ofList]
  exact notMem_of_mem_splitChars List.not_mem_nil hcs

-- ==== steps

/-- A component that is the name of something. -/
def IsName (part : String) : Prop :=
  part ≠ "" ∧ part ≠ "." ∧ part ≠ ".." ∧ '/' ∉ part.toList

instance (part : String) : Decidable (IsName part) :=
  inferInstanceAs (Decidable (_ ∧ _))

/-- Components after cleaning, from an empty path on. -/
def cleanParts (rooted : Bool) (parts : List String) : List String :=
  (parts.foldl (cleanStep rooted) []).reverse

/-- Cleaning goes over the components one by one. -/
theorem cleanComponents_eq (p : String) :
    cleanComponents p = cleanParts (isAbsolute p) (components p) := rfl

variable {rooted : Bool} {kept : List String} {part : String}

/-- An empty component and a dot are dropped. -/
theorem cleanStep_skip (h : part = "" ∨ part = ".") :
    cleanStep rooted kept part = kept := by
  unfold cleanStep
  rw [if_pos (by simpa using h)]

/-- A name is kept. -/
theorem cleanStep_name (h : part ≠ "" ∧ part ≠ "." ∧ part ≠ "..") :
    cleanStep rooted kept part = part :: kept := by
  unfold cleanStep
  rw [if_neg (by simp [h]), if_neg h.2.2]

/-- A way up behind a way up is kept. -/
theorem cleanStep_up_up {before : List String} :
    cleanStep rooted (".." :: before) ".." = ".." :: ".." :: before := rfl

/-- A way up takes the name before it. -/
theorem cleanStep_up_name {last : String} {before : List String}
    (h : last ≠ "..") : cleanStep rooted (last :: before) ".." = before := by
  unfold cleanStep
  rw [if_neg (by decide), if_pos rfl]
  exact if_neg h

/-- Names are all kept. -/
theorem foldl_names {names : List String} (h : ∀ n ∈ names, IsName n) :
    names.foldl (cleanStep rooted) kept = names.reverse ++ kept := by
  induction names generalizing kept with
  | nil => rfl
  | cons n names ih =>
      obtain ⟨hempty, hdot, hup, -⟩ := h n List.mem_cons_self
      rw [List.foldl_cons, cleanStep_name ⟨hempty, hdot, hup⟩,
        ih fun m hm => h m (List.mem_cons_of_mem n hm), List.reverse_cons,
        List.append_assoc]
      rfl

-- ==== ways

/-- A way that goes up so often, and then down through names. -/
structure Way where
  up : Nat
  down : List String
  deriving DecidableEq

namespace Way

def parts (w : Way) : List String := List.replicate w.up ".." ++ w.down

/-- The way that cleaned components are. -/
def of (parts : List String) : Way where
  up := (parts.takeWhile (· = "..")).length
  down := parts.dropWhile (· = "..")

/-- It goes down through names only; from the root it goes nowhere else. -/
structure Tidy (rooted : Bool) (w : Way) : Prop where
  names : ∀ n ∈ w.down, IsName n
  root : rooted = true → w.up = 0

/-- Where the way leads after going up `k` times more. There is nothing
above the root. -/
def climb (rooted : Bool) (w : Way) (k : Nat) : Way where
  up := if rooted then 0 else w.up + (k - w.down.length)
  down := w.down.take (w.down.length - k)

/-- Where the way leads if another is taken from its end. -/
def then_ (rooted : Bool) (w v : Way) : Way where
  up := (w.climb rooted v.up).up
  down := (w.climb rooted v.up).down ++ v.down

variable {w v : Way}

/-- A tidy way goes down by names only. -/
theorem Tidy.up_notMem (h : w.Tidy rooted) : ".." ∉ w.down :=
  fun hmem => (h.names _ hmem).2.2.1 rfl

/-- A way is told from its parts. -/
theorem of_parts (h : ".." ∉ w.down) : of w.parts = w := by
  obtain ⟨up, down⟩ := w
  have hdown : down.takeWhile (· = "..") = []
      ∧ down.dropWhile (· = "..") = down := by
    cases down with
    | nil => exact ⟨rfl, rfl⟩
    | cons n down =>
        have hn : n ≠ ".." := fun hn => h (hn ▸ List.mem_cons_self)
        simp [hn]
  unfold of parts
  dsimp only
  rw [List.takeWhile_append_of_pos (by simp),
    List.dropWhile_append_of_pos (by simp), hdown.1, hdown.2,
    List.append_nil, List.length_replicate]

/-- Climbing from a tidy way leaves a tidy one. -/
theorem Tidy.climb (h : w.Tidy rooted) (k : Nat) :
    (w.climb rooted k).Tidy rooted := by
  refine ⟨fun n hn => h.names n (List.mem_of_mem_take hn), fun hroot => ?_⟩
  show (if rooted then 0 else _) = 0
  rw [if_pos hroot]

/-- So does following another way from there. -/
theorem Tidy.then_ (hw : w.Tidy rooted) {other : Bool} (hv : v.Tidy other) :
    (w.then_ rooted v).Tidy rooted := by
  refine ⟨fun n hn => ?_, (hw.climb v.up).root⟩
  rcases List.mem_append.1 hn with hn | hn
  · exact (hw.climb v.up).names n hn
  · exact hv.names n hn

/-- Climbing one step more. -/
theorem climb_succ (w : Way) (k : Nat) :
    (w.climb rooted k).climb rooted 1 = w.climb rooted (k + 1) := by
  unfold Way.climb
  dsimp only
  rw [List.length_take, List.take_take]
  congr 1
  · split
    · rfl
    · omega
  · congr 1
    omega

-- ==== walking

theorem reverse_parts (w : Way) :
    w.parts.reverse = w.down.reverse ++ List.replicate w.up ".." := by
  unfold parts
  rw [List.reverse_append, List.reverse_replicate]

/-- One step up leads to the way that goes up once more. -/
theorem cleanStep_climb (h : w.Tidy rooted) :
    cleanStep rooted w.parts.reverse ".."
      = (w.climb rooted 1).parts.reverse := by
  obtain ⟨up, down⟩ := w
  rw [reverse_parts, reverse_parts]
  rcases List.eq_nil_or_concat' down with rfl | ⟨before, last, rfl⟩
  · cases up with
    | zero => cases rooted <;> rfl
    | succ up =>
        -- there is a way up, so this is not the root
        have hroot : rooted = false := by
          cases rooted with
          | true => exact absurd (h.root rfl) (Nat.succ_ne_zero up)
          | false => rfl
        rw [hroot]
        exact cleanStep_up_up
  · have hlast : last ≠ ".." := (h.names last (by simp)).2.2.1
    have hup : (if rooted = true then 0 else up) = up := by
      split
      · next hroot => exact (h.root hroot).symm
      · rfl
    rw [List.reverse_append, List.reverse_singleton, List.append_assoc,
      List.singleton_append, cleanStep_up_name hlast]
    unfold Way.climb
    dsimp only
    rw [List.length_append, List.length_singleton, Nat.add_sub_cancel,
      List.take_left, Nat.sub_eq_zero_of_le (Nat.le_add_left _ _),
      Nat.add_zero, hup]

/-- Going up again and again. -/
theorem foldl_climb (h : w.Tidy rooted) (k : Nat) :
    (List.replicate k "..").foldl (cleanStep rooted) w.parts.reverse
      = (w.climb rooted k).parts.reverse := by
  induction k with
  | zero =>
      have hzero : w.climb rooted 0 = w := by
        obtain ⟨up, down⟩ := w
        unfold Way.climb
        dsimp only
        rw [Nat.sub_zero, List.take_length, Nat.zero_sub, Nat.add_zero]
        congr 1
        split
        · next hroot => exact (h.root hroot).symm
        · rfl
      rw [hzero]
      rfl
  | succ k ih =>
      rw [List.replicate_succ', List.foldl_append, ih]
      show cleanStep rooted (w.climb rooted k).parts.reverse ".." = _
      rw [cleanStep_climb (h.climb k), climb_succ]

/-- A way is taken from the end of another. -/
theorem foldl_then (hw : w.Tidy rooted) {other : Bool} (hv : v.Tidy other) :
    v.parts.foldl (cleanStep rooted) w.parts.reverse
      = (w.then_ rooted v).parts.reverse := by
  rw [parts.eq_1 v, List.foldl_append, foldl_climb hw, foldl_names hv.names,
    reverse_parts, reverse_parts]
  show _ = ((w.climb rooted v.up).down ++ v.down).reverse ++ _
  rw [List.reverse_append, List.append_assoc]
  rfl

end Way

open Way

/-- What a component can be. -/
theorem eq_empty_or_dot_or_up_or_name (part : String)
    (h : '/' ∉ part.toList) :
    (part = "" ∨ part = ".") ∨ part = ".." ∨ IsName part := by
  by_cases hskip : part = "" ∨ part = "."
  · exact .inl hskip
  · by_cases hup : part = ".."
    · exact .inr (.inl hup)
    · obtain ⟨hempty, hdot⟩ := not_or.1 hskip
      exact .inr (.inr ⟨hempty, hdot, hup, h⟩)

variable {parts : List String}

/-- Every walk that begins with a tidy way ends with one. -/
theorem exists_tidy_foldl {w : Way} (hw : w.Tidy rooted)
    (h : ∀ part ∈ parts, '/' ∉ part.toList) :
    ∃ v : Way, v.Tidy rooted
      ∧ parts.foldl (cleanStep rooted) w.parts.reverse = v.parts.reverse := by
  induction parts generalizing w with
  | nil => exact ⟨w, hw, rfl⟩
  | cons part parts ih =>
      have hrest : ∀ p ∈ parts, '/' ∉ p.toList :=
        fun p hp => h p (List.mem_cons_of_mem part hp)
      rw [List.foldl_cons]
      rcases eq_empty_or_dot_or_up_or_name part (h part List.mem_cons_self)
        with hskip | rfl | hname
      · rw [cleanStep_skip hskip]
        exact ih hw hrest
      · rw [cleanStep_climb hw]
        exact ih (hw.climb 1) hrest
      · have hone : (⟨0, [part]⟩ : Way).Tidy rooted :=
          ⟨fun n hn => List.mem_singleton.1 hn ▸ hname, fun _ => rfl⟩
        have hstep := foldl_then hw hone
        rw [show (⟨0, [part]⟩ : Way).parts = [part] from rfl] at hstep
        rw [show cleanStep rooted w.parts.reverse part = _ from hstep]
        exact ih (hw.then_ hone) hrest

/-- Staying where one is is tidy. -/
theorem tidy_here (rooted : Bool) : (⟨0, []⟩ : Way).Tidy rooted :=
  ⟨fun _ hn => absurd hn List.not_mem_nil, fun _ => rfl⟩

/-- Cleaned components are a tidy way. -/
theorem exists_tidy (rooted : Bool) (h : ∀ part ∈ parts, '/' ∉ part.toList) :
    ∃ w : Way, w.Tidy rooted ∧ cleanParts rooted parts = w.parts := by
  obtain ⟨w, hw, hfold⟩ := exists_tidy_foldl (tidy_here rooted) h
  refine ⟨w, hw, ?_⟩
  show (parts.foldl (cleanStep rooted) (⟨0, []⟩ : Way).parts.reverse).reverse = _
  rw [hfold, List.reverse_reverse]

/-- A part that stays is neither empty nor a dot. -/
theorem not_skipped_of_mem (h : ∀ part ∈ parts, '/' ∉ part.toList)
    (hpart : part ∈ cleanParts false parts) : part ≠ "" ∧ part ≠ "." := by
  obtain ⟨w, hw, heq⟩ := exists_tidy false h
  rw [heq] at hpart
  rcases List.mem_append.1 hpart with hup | hdown
  · rw [List.eq_of_mem_replicate hup]
    decide
  · exact ⟨(hw.names part hdown).1, (hw.names part hdown).2.1⟩

/-- Parts may be cleaned before they are walked. -/
theorem foldl_cleanParts (h : ∀ part ∈ parts, '/' ∉ part.toList)
    (kept : List String) :
    (cleanParts false parts).foldl (cleanStep rooted) kept
      = parts.foldl (cleanStep rooted) kept := by
  induction parts using List.reverseRecOn with
  | nil => rfl
  | append_singleton parts part ih =>
      have hparts : ∀ p ∈ parts, '/' ∉ p.toList :=
        fun p hp => h p (List.mem_append_left _ hp)
      have hskip : ∀ p ∈ cleanParts false parts, p ≠ "" ∧ p ≠ "." :=
        fun _ hp => not_skipped_of_mem hparts hp
      rw [List.foldl_append, ← ih hparts]
      unfold cleanParts at hskip ⊢
      rw [List.foldl_append]
      generalize parts.foldl (cleanStep false) [] = walked at hskip ⊢
      show (cleanStep false walked part).reverse.foldl _ kept
        = cleanStep rooted (walked.reverse.foldl _ kept) part
      rcases eq_empty_or_dot_or_up_or_name part (h part (by simp))
        with hpart | rfl | hname
      · rw [cleanStep_skip hpart, cleanStep_skip hpart]
      · cases walked with
        | nil => rfl
        | cons last before =>
            rw [List.reverse_cons, List.foldl_append]
            by_cases hlast : last = ".."
            · rw [hlast, cleanStep_up_up, List.reverse_cons, List.reverse_cons,
                List.foldl_append, List.foldl_append]
              rfl
            · obtain ⟨hempty, hdot⟩ := hskip last (by simp)
              show _ = cleanStep rooted (cleanStep rooted _ last) ".."
              rw [cleanStep_up_name hlast, cleanStep_name ⟨hempty, hdot, hlast⟩,
                cleanStep_up_name hlast]
      · rw [cleanStep_name ⟨hname.1, hname.2.1, hname.2.2.1⟩,
          List.reverse_cons, List.foldl_append]
        rfl

-- ==== cleaned paths

namespace Way

variable {w v : Way}

/-- The components of a tidy way are not empty and have no slash. -/
theorem Tidy.mem_parts (h : w.Tidy rooted) (hpart : part ∈ w.parts) :
    part ≠ "" ∧ '/' ∉ part.toList := by
  rcases List.mem_append.1 hpart with hup | hdown
  · rw [List.eq_of_mem_replicate hup]
    decide
  · exact ⟨(h.names part hdown).1, (h.names part hdown).2.2.2⟩

/-- A tidy way is clean. -/
theorem Tidy.cleanParts (h : w.Tidy rooted) :
    cleanParts rooted w.parts = w.parts := by
  have hstart : (⟨0, []⟩ : Way).then_ rooted w = w := by
    obtain ⟨up, down⟩ := w
    unfold Way.then_ Way.climb
    dsimp only
    rw [List.take_nil, List.nil_append, List.length_nil, Nat.sub_zero,
      Nat.zero_add]
    congr 1
    split
    · next hroot => exact (h.root hroot).symm
    · rfl
  have hfold := foldl_then (tidy_here rooted) h
  rw [hstart] at hfold
  show (w.parts.foldl _ (⟨0, []⟩ : Way).parts.reverse).reverse = _
  rw [hfold, List.reverse_reverse]

/-- Ways that go down through names only are told apart by their
components. -/
theorem eq_of_parts (hw : ".." ∉ w.down) (hv : ".." ∉ v.down)
    (h : w.parts = v.parts) : w = v := by
  rw [← of_parts hw, h, of_parts hv]

end Way

/-- A path is absolute by its beginning. -/
theorem isAbsolute_append {a : String} (h : a ≠ "") (b : String) :
    isAbsolute (a ++ b) = isAbsolute a := by
  have hne : a.toList ≠ [] := fun hnil => h (String.toList_eq_nil_iff.1 hnil)
  unfold isAbsolute
  rw [String.toList_append, List.head?_append_of_ne_nil _ hne]

/-- A path without a slash is not absolute. -/
theorem isAbsolute_of_notMem (h : '/' ∉ p.toList) :
    isAbsolute p = false := by
  unfold isAbsolute
  rw [decide_eq_false_iff_not]
  exact fun hhead => h (List.mem_of_mem_head? hhead)

theorem isAbsolute_intercalate {a : String} (h : a ≠ "") (l : List String) :
    isAbsolute ("/".intercalate (a :: l)) = isAbsolute a := by
  cases l with
  | nil => rw [String.intercalate_singleton]
  | cons b l =>
      rw [String.intercalate_cons_cons, String.append_assoc,
        isAbsolute_append h]

/-- A cleaned path is a tidy way. -/
theorem exists_tidy_cleanComponents (p : String) :
    ∃ w : Way, w.Tidy (isAbsolute p) ∧ cleanComponents p = w.parts :=
  exists_tidy _ fun _ => notMem_of_mem_components

/-- Components have no components but themselves. -/
theorem flatMap_components (h : ∀ part ∈ parts, '/' ∉ part.toList) :
    parts.flatMap components = parts := by
  induction parts with
  | nil => rfl
  | cons part parts ih =>
      rw [List.flatMap_cons, components_of_notMem (h part List.mem_cons_self),
        ih fun p hp => h p (List.mem_cons_of_mem part hp)]
      rfl

/-- The text of a tidy way leads there. -/
theorem Way.Tidy.ofComponents {w : Way} (h : w.Tidy rooted) :
    isAbsolute (ofComponents rooted w.parts) = rooted
      ∧ cleanComponents (ofComponents rooted w.parts) = w.parts := by
  -- what the parts without the slash in front are read as
  have hparts : w.parts ≠ [] →
      components ("/".intercalate w.parts) = w.parts := by
    intro hne
    rw [components_intercalate hne,
      flatMap_components fun _ hpart => (h.mem_parts hpart).2]
  cases rooted with
  | true =>
      have habs : isAbsolute (Path.ofComponents true w.parts) = true :=
        isAbsolute_append (a := "/") (by decide) _
      refine ⟨habs, ?_⟩
      rw [cleanComponents_eq, habs]
      show Path.cleanParts true (components ("" ++ "/" ++ "/".intercalate w.parts))
        = _
      rw [components_slash]
      show Path.cleanParts true (components ("/".intercalate w.parts)) = _
      by_cases hnil : w.parts = []
      · rw [hnil]
        rfl
      · rw [hparts hnil, h.cleanParts]
  | false =>
      cases hcases : w.parts with
      | nil => exact ⟨rfl, rfl⟩
      | cons first rest =>
          obtain ⟨hempty, hslash⟩ : first ≠ "" ∧ '/' ∉ first.toList := by
            refine h.mem_parts ?_
            rw [hcases]
            exact List.mem_cons_self
          have htext : Path.ofComponents false (first :: rest)
              = "/".intercalate (first :: rest) := rfl
          have habs : isAbsolute ("/".intercalate (first :: rest)) = false := by
            rw [isAbsolute_intercalate hempty]
            exact isAbsolute_of_notMem hslash
          rw [htext, cleanComponents_eq, habs]
          refine ⟨rfl, ?_⟩
          rw [← hcases, hparts (by rw [hcases]; exact List.cons_ne_nil _ _),
            h.cleanParts]

/-- Cleaning leaves a path absolute or relative. -/
theorem isAbsolute_clean (p : String) :
    isAbsolute (clean p) = isAbsolute p := by
  obtain ⟨w, hw, hparts⟩ := exists_tidy_cleanComponents p
  unfold clean
  rw [hparts]
  exact hw.ofComponents.1

/-- Cleaning a second time changes nothing. -/
theorem cleanComponents_clean (p : String) :
    cleanComponents (clean p) = cleanComponents p := by
  obtain ⟨w, hw, hparts⟩ := exists_tidy_cleanComponents p
  unfold clean
  rw [hparts]
  exact hw.ofComponents.2

-- ==== joined paths

/-- Empty paths do not matter for the walk. -/
theorem foldl_filter (l : List String) (kept : List String) :
    ((l.filter (· ≠ "")).flatMap components).foldl (cleanStep rooted) kept
      = (l.flatMap components).foldl (cleanStep rooted) kept := by
  induction l generalizing kept with
  | nil => rfl
  | cons a l ih =>
      by_cases ha : a = ""
      · rw [ha, List.filter_cons_of_neg (by simp), ih]
        rfl
      · rw [List.filter_cons_of_pos (by simpa using ha), List.flatMap_cons,
          List.flatMap_cons, List.foldl_append, List.foldl_append, ih]

/-- Empty parts do not matter in a join. -/
theorem join_of_filter {l : List String} {first : String} {rest : List String}
    (h : l.filter (· ≠ "") = first :: rest) :
    isAbsolute (join l) = isAbsolute first
      ∧ cleanComponents (join l)
        = cleanParts (isAbsolute first) (l.flatMap components) := by
  have hjoin : join l = clean ("/".intercalate (first :: rest)) := by
    unfold join
    rw [h]
  have hfirst : first ≠ "" := by
    have hmem : first ∈ l.filter (· ≠ "") := h ▸ List.mem_cons_self
    simpa using (List.mem_filter.1 hmem).2
  have habs := isAbsolute_intercalate hfirst rest
  rw [hjoin, isAbsolute_clean, cleanComponents_clean, habs]
  refine ⟨rfl, ?_⟩
  rw [cleanComponents_eq, habs,
    components_intercalate (List.cons_ne_nil first rest), ← h]
  unfold cleanParts
  rw [foldl_filter]

-- ==== inside

/-- A path lies inside a directory: after cleaning it has all components
of the directory and then some, and does not go up from there. -/
def Inside (dir p : String) : Prop :=
  isAbsolute p = isAbsolute dir
    ∧ ∃ more, more ≠ [] ∧ ".." ∉ more
      ∧ cleanComponents p = cleanComponents dir ++ more

/-- The way from a place leads inside it: the way goes up no further than
there are names, unless the root stops it, and comes back down through
those that it has left, and further. -/
def Way.Stays (rooted : Bool) (place way : Way) : Prop :=
  let left := place.down.drop (place.down.length - way.up)
  (rooted = true ∨ way.up ≤ place.down.length)
    ∧ left <+: way.down ∧ left ≠ way.down

instance (rooted : Bool) (place way : Way) :
    Decidable (place.Stays rooted way) :=
  inferInstanceAs (Decidable (_ ∧ _))

namespace Way

variable {w v : Way}

/-- The way up is as long as before exactly if there are names enough. -/
theorem Tidy.then_up_iff (hw : w.Tidy rooted) :
    (w.then_ rooted v).up = w.up
      ↔ rooted = true ∨ v.up ≤ w.down.length := by
  show (if rooted = true then 0 else w.up + (v.up - w.down.length)) = w.up ↔ _
  by_cases hroot : rooted = true
  · simp [hroot, hw.root hroot]
  · rw [if_neg hroot, or_iff_right hroot]
    omega

/-- When a way on leads below where one is. -/
theorem then_down_iff {more : List String} :
    (w.then_ rooted v).down = w.down ++ more
      ↔ w.down.drop (w.down.length - v.up) ++ more = v.down := by
  have hsplit := List.take_append_drop (w.down.length - v.up) w.down
  show w.down.take _ ++ v.down = w.down ++ more ↔ _
  rw [← hsplit, List.append_assoc, hsplit, List.append_cancel_left_eq]
  exact eq_comm

/-- When the parts of a way continue those of another. -/
theorem parts_eq_append_iff (hv : ".." ∉ v.down) (hw : ".." ∉ w.down)
    {more : List String} (hmore : ".." ∉ more) :
    v.parts = w.parts ++ more ↔ v.up = w.up ∧ v.down = w.down ++ more := by
  have happend : w.parts ++ more = (⟨w.up, w.down ++ more⟩ : Way).parts :=
    List.append_assoc _ _ _
  rw [happend]
  constructor
  · intro h
    have hnone : ".." ∉ w.down ++ more := fun hmem =>
      (List.mem_append.1 hmem).elim hw hmore
    rw [eq_of_parts hv hnone h]
    exact ⟨rfl, rfl⟩
  · rintro ⟨hup, hdown⟩
    unfold parts
    rw [hup, hdown]

/-- A way leads inside a place exactly if it stays there or comes back. -/
theorem stays_iff (hw : w.Tidy rooted) {other : Bool} (hv : v.Tidy other) :
    w.Stays rooted v
      ↔ ∃ more, more ≠ [] ∧ ".." ∉ more
          ∧ (w.then_ rooted v).parts = w.parts ++ more := by
  have hthen := (hw.then_ hv).up_notMem
  constructor
  · rintro ⟨hclimb, ⟨more, hback⟩, hne⟩
    have hnone : ".." ∉ more := fun hmem =>
      hv.up_notMem (hback ▸ List.mem_append_right _ hmem)
    refine ⟨more, fun hnil => hne ?_, hnone, ?_⟩
    · rw [← hback, hnil, List.append_nil]
    · rw [parts_eq_append_iff hthen hw.up_notMem hnone]
      exact ⟨hw.then_up_iff.2 hclimb, then_down_iff.2 hback⟩
  · rintro ⟨more, hne, hnone, hparts⟩
    obtain ⟨hclimb, hdown⟩ :=
      (parts_eq_append_iff hthen hw.up_notMem hnone).1 hparts
    have hback := then_down_iff.1 hdown
    refine ⟨hw.then_up_iff.1 hclimb, ⟨more, hback⟩, fun heq => hne ?_⟩
    rw [← heq] at hback
    exact List.append_right_eq_self.1 hback

/-- A way that only goes down stays. -/
theorem stays_of_down (w : Way) (hup : v.up = 0) (hdown : v.down ≠ []) :
    w.Stays rooted v := by
  unfold Stays
  rw [hup, Nat.sub_zero, List.drop_length]
  exact ⟨.inr (Nat.zero_le _), List.nil_prefix, hdown.symm⟩

end Way

/-- The way to a name in a folder. -/
def wayTo (folder name : String) : Way :=
  .of (cleanParts false (components folder ++ components name))

/-- The way to a name in a folder is tidy. -/
theorem exists_tidy_wayTo (rooted : Bool) (folder name : String) :
    ∃ v : Way, v.Tidy false ∧ wayTo folder name = v
      ∧ ∀ kept, (components folder ++ components name).foldl
          (cleanStep rooted) kept = v.parts.foldl (cleanStep rooted) kept := by
  have hslash : ∀ part ∈ components folder ++ components name,
      '/' ∉ part.toList := fun part hpart =>
    (List.mem_append.1 hpart).elim notMem_of_mem_components
      notMem_of_mem_components
  obtain ⟨v, hv, hparts⟩ := exists_tidy false hslash
  refine ⟨v, hv, ?_, fun kept => ?_⟩
  · unfold wayTo
    rw [hparts, of_parts hv.up_notMem]
  · rw [← hparts, foldl_cleanParts hslash]

/-- Cleaning brings in no component. -/
theorem mem_of_mem_foldl {parts kept : List String}
    (h : part ∈ parts.foldl (cleanStep rooted) kept) :
    part ∈ kept ∨ part ∈ parts := by
  induction parts generalizing kept with
  | nil => exact .inl h
  | cons first parts ih =>
      have hstep : part ∈ cleanStep rooted kept first →
          part ∈ kept ∨ part = first := by
        unfold cleanStep
        grind
      rcases ih h with hkept | hmem
      · rcases hstep hkept with hkept | rfl
        · exact .inl hkept
        · exact .inr List.mem_cons_self
      · exact .inr (List.mem_cons_of_mem first hmem)

/-- Without two dots in the folder the way to a name only goes down. -/
theorem wayTo_down {folder name : String} (hfolder : ".." ∉ components folder)
    (hname : IsName name) :
    (wayTo folder name).up = 0 ∧ (wayTo folder name).down ≠ [] := by
  obtain ⟨v, hv, hway, hwalk⟩ := exists_tidy_wayTo false folder name
  have hparts : v.parts = cleanParts false (components folder ++ [name]) := by
    rw [← hv.cleanParts]
    unfold cleanParts
    rw [← hwalk, components_of_notMem hname.2.2.2]
  have hmem : ∀ part ∈ v.parts, part ≠ ".." := by
    rintro part hpart rfl
    rw [hparts, cleanParts, List.mem_reverse] at hpart
    rcases mem_of_mem_foldl hpart with hnil | hpart
    · exact List.not_mem_nil hnil
    · rcases List.mem_append.1 hpart with hpart | hpart
      · exact hfolder hpart
      · exact hname.2.2.1 (List.mem_singleton.1 hpart).symm
  have hup : v.up = 0 := by
    by_contra hup
    refine hmem ".." (List.mem_append_left _ ?_) rfl
    exact List.mem_replicate.2 ⟨hup, rfl⟩
  rw [hway]
  refine ⟨hup, fun hnil => ?_⟩
  have hempty : v.parts = [] := by
    unfold parts
    rw [hup, hnil]
    rfl
  rw [hparts, cleanParts, List.foldl_append, List.foldl_cons, List.foldl_nil,
    cleanStep_name ⟨hname.1, hname.2.1, hname.2.2.1⟩] at hempty
  exact List.cons_ne_nil _ _ (List.reverse_eq_nil_iff.1 hempty)

/-- If a joined path begins at the root as its directory does, it lies
inside exactly if its way stays there. -/
theorem inside_join_of_filter {dir folder name first : String}
    {rest : List String}
    (h : [dir, folder, name].filter (· ≠ "") = first :: rest)
    (hfirst : isAbsolute first = isAbsolute dir) :
    Inside dir (join [dir, folder, name])
      ↔ (Way.of (cleanComponents dir)).Stays (isAbsolute dir)
          (wayTo folder name) := by
  obtain ⟨habs, hjoin⟩ := join_of_filter h
  obtain ⟨w, hw, hdir⟩ := exists_tidy_cleanComponents dir
  obtain ⟨v, hv, hway, hwalk⟩ :=
    exists_tidy_wayTo (isAbsolute dir) folder name
  have hstart : (components dir).foldl (cleanStep (isAbsolute dir)) []
      = w.parts.reverse := by
    rw [← hdir]
    exact (List.reverse_reverse _).symm
  have hparts : cleanComponents (join [dir, folder, name])
      = (w.then_ (isAbsolute dir) v).parts := by
    rw [hjoin, hfirst]
    show (List.foldl _ [] (components dir
      ++ (components folder ++ (components name ++ [])))).reverse = _
    rw [List.append_nil, List.foldl_append, hstart, hwalk,
      foldl_then hw hv, List.reverse_reverse]
  unfold Inside
  rw [habs, hfirst, hparts, hdir, of_parts hw.up_notMem, hway,
    stays_iff hw hv]
  exact and_iff_right rfl

/-- A name in a folder, joined to a directory, lies inside it exactly if
its way stays there. Without a directory, the folder must not begin at the
root. -/
theorem inside_join_iff (dir folder : String) {name : String}
    (hname : name ≠ "") (hroot : isAbsolute name = true → name = "/") :
    Inside dir (join [dir, folder, name])
      ↔ (dir ≠ "" ∨ isAbsolute folder = false)
        ∧ (Way.of (cleanComponents dir)).Stays (isAbsolute dir)
            (wayTo folder name) := by
  by_cases hdir : dir = ""
  · subst hdir
    rw [or_iff_right (not_not_intro rfl)]
    by_cases hfolder : folder = ""
    · subst hfolder
      have hfilter : ["", "", name].filter (· ≠ "") = [name] := by
        simp [hname]
      cases habs : isAbsolute name with
      | false =>
          rw [inside_join_of_filter hfilter habs]
          exact (and_iff_right rfl).symm
      | true =>
          obtain rfl := hroot habs
          refine iff_of_false (fun hin => ?_) (by decide)
          rw [Inside, (join_of_filter hfilter).1, habs] at hin
          exact absurd hin.1 (by decide)
    · have hfilter : ["", folder, name].filter (· ≠ "") = [folder, name] := by
        simp [hname, hfolder]
      cases habs : isAbsolute folder with
      | false =>
          rw [inside_join_of_filter hfilter habs]
          exact (and_iff_right rfl).symm
      | true =>
          refine iff_of_false (fun hin => ?_) fun hin => absurd hin.1 (by decide)
          rw [Inside, (join_of_filter hfilter).1, habs] at hin
          exact absurd hin.1 (by decide)
  · have hfilter : [dir, folder, name].filter (· ≠ "")
        = dir :: [folder, name].filter (· ≠ "") :=
      List.filter_cons_of_pos (by simpa using hdir)
    rw [inside_join_of_filter hfilter rfl]
    exact (and_iff_right (.inl hdir)).symm

-- ==== bases

/-- The last component, if there is one. -/
theorem base_cases (p : String) :
    base p = "." ∨ base p = "/" ∨ (base p ≠ "" ∧ '/' ∉ (base p).toList) := by
  unfold base
  split
  · exact .inl rfl
  · split
    · next last hlast =>
      refine .inr (.inr ⟨by simpa using List.find?_some hlast, ?_⟩)
      exact notMem_of_mem_components
        (List.mem_reverse.1 (List.mem_of_find?_eq_some hlast))
    · exact .inr (.inl rfl)

/-- The base of a path is never empty. -/
theorem base_ne_empty (p : String) : base p ≠ "" := by
  rcases base_cases p with h | h | h
  · rw [h]
    decide
  · rw [h]
    decide
  · exact h.1

/-- It is absolute for the root only. -/
theorem base_eq_slash_of_isAbsolute (h : isAbsolute (base p) = true) :
    base p = "/" := by
  rcases base_cases p with hdot | hslash | hname
  · rw [hdot] at h
    exact absurd h (by decide)
  · exact hslash
  · rw [isAbsolute_of_notMem hname.2] at h
    exact absurd h (by decide)

end PromptGraph.Path
