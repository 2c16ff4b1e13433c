import ContractMigration.Proofs.Checkout.Guarded

/-! Paths that are asked of a checkout. A path passes the guard exactly if, taken apart, it consists of names and perhaps of
a dot in front. Joined to the root of the checkout, such a path leads from where the root leads down by names and nowhere
else, whatever the root is: by the text of the path alone, and also where it is followed through directories. -/

namespace ContractMigration

namespace Path

variable {s path : List Char}

/-! ### Where a path leads by its text -/

/-- Where a path leads by its text: from the root of the system or from where one is, some directories up, and down by names. -/
@[ext] structure Lexical where
  absolute : Bool
  above : Nat
  names : List (List Char)

namespace Lexical

/-- Follows one segment. No directory is above the root of the system. -/
def step (l : Lexical) (s : List Char) : Lexical :=
  if s = [] ∨ s = dot then l
  else if s = dotDot then
    if l.names ≠ [] then { l with names := l.names.dropLast }
    else if l.absolute then l
    else { l with above := l.above + 1 }
  else { l with names := l.names ++ [s] }

/-- Follows names. -/
def enter (l : Lexical) (names : List (List Char)) : Lexical := { l with names := l.names ++ names }

theorem enter_nil (l : Lexical) : l.enter [] = l := by simp [enter]

theorem enter_cons (l : Lexical) (s : List Char) (names : List (List Char)) :
    l.enter (s :: names) = (l.enter [s]).enter names := by simp [enter]

theorem step_of_isName (hs : IsName s) (l : Lexical) : l.step s = l.enter [s] := by
  rw [step, if_neg (not_or.mpr ⟨hs.1, hs.2.1⟩), if_neg hs.2.2, enter]

end Lexical

/-- The lexical normal form of a path. -/
def lexical (path : List Char) : Lexical :=
  (Text.segments '/' path).foldl Lexical.step ⟨Text.startsWith ['/'] path, 0, []⟩

/-- The names among segments. -/
def namesOf (segments : List (List Char)) : List (List Char) := segments.filter fun s => IsName s

theorem namesOf_cons_of_isName (hs : IsName s) (segments : List (List Char)) :
    namesOf (s :: segments) = s :: namesOf segments :=
  List.filter_cons_of_pos (by simpa using hs)

theorem namesOf_cons_of_stay (hs : s = [] ∨ s = dot) (segments : List (List Char)) :
    namesOf (s :: segments) = namesOf segments := by
  refine List.filter_cons_of_neg ?_
  rcases hs with rfl | rfl <;> decide

/-- Without a step above, segments lead down by the names among them. -/
theorem foldl_step_of_notMem {segments : List (List Char)} (h : dotDot ∉ segments) (l : Lexical) :
    segments.foldl Lexical.step l = l.enter (namesOf segments) := by
  induction segments generalizing l with
  | nil => exact l.enter_nil.symm
  | cons s segments ih =>
    rw [List.foldl_cons, ih fun hmem => h (List.mem_cons_of_mem s hmem)]
    rcases segment_cases s with hs | rfl | hs
    · rw [Lexical.step, if_pos hs, namesOf_cons_of_stay hs]
    · exact absurd List.mem_cons_self h
    · rw [Lexical.step_of_isName hs, namesOf_cons_of_isName hs, ← l.enter_cons]

end Path

namespace Files

open ContractMigration.Path

variable {f : Files} {root path : String} {base place : Place}

/-! ### Joined paths -/

/-- A path that does not begin at the root of the system is added to what is in front, perhaps with a slash between them. -/
theorem join_eq (hpath : ¬['/'] <+: path.toList) (root : String) : join root path =
    if root = "" ∨ ['/'] <:+ root.toList then root ++ path else root ++ "/" ++ path := by
  simp only [join, Text.startsWith_iff, Text.endsWith_iff, hpath, or_false]
  by_cases hroot : root = ""
  · simp [hroot]
  · simp [hroot]

/-- The segments of a joined path are those of both paths, but an empty one at the end of the first path may be lost. -/
theorem exists_segments_join (hpath : ¬['/'] <+: path.toList) (root : String) :
    ∃ front, Text.segments '/' (join root path).toList = front ++ Text.segments '/' path.toList ∧
      (Text.segments '/' root.toList = front ∨ Text.segments '/' root.toList = front ++ [[]]) := by
  rw [join_eq hpath]
  split_ifs with hslash
  · rcases hslash with rfl | ⟨front, hfront⟩
    · exact ⟨[], by simp, .inr rfl⟩
    · refine ⟨Text.segments '/' front, ?_, .inr ?_⟩
      · rw [String.toList_append, ← hfront, List.append_assoc, List.singleton_append, Text.segments_append_cons]
      · rw [← hfront, Text.segments_append_cons]
        rfl
  · refine ⟨Text.segments '/' root.toList, ?_, .inl rfl⟩
    rw [String.toList_append, String.toList_append, List.append_assoc]
    exact Text.segments_append_cons '/' root.toList path.toList

theorem startsWith_join (hpath : ¬['/'] <+: path.toList) (root : String) :
    Text.startsWith ['/'] (join root path).toList = Text.startsWith ['/'] root.toList := by
  rw [Bool.eq_iff_iff, Text.startsWith_iff, Text.startsWith_iff, join_eq hpath]
  by_cases hroot : root = ""
  · simp [hroot, hpath]
  · obtain ⟨c, rest, hchars⟩ := List.exists_cons_of_ne_nil (mt String.toList_eq_nil_iff.mp hroot)
    split_ifs <;> simp [hchars]

/-- Joined to a path, what takes no step above leads on from where that path leads, by names. -/
theorem lexical_join (hpath : ¬['/'] <+: path.toList) (habove : dotDot ∉ Text.segments '/' path.toList) (root : String) :
    lexical (join root path).toList = (lexical root.toList).enter (namesOf (Text.segments '/' path.toList)) := by
  obtain ⟨front, hjoin, hroot⟩ := exists_segments_join hpath root
  have hfront : lexical root.toList = front.foldl Lexical.step ⟨Text.startsWith ['/'] root.toList, 0, []⟩ := by
    rcases hroot with hroot | hroot
    · rw [lexical, hroot]
    · rw [lexical, hroot, List.foldl_append]
      rfl
  rw [lexical, hjoin, List.foldl_append, startsWith_join hpath, ← hfront, foldl_step_of_notMem habove]

/-! ### Followed paths -/

theorem follow_append (f : Files) (p : Place) (front back : List String) :
    f.follow p (front ++ back) = (f.follow p front).bind fun q => f.follow q back := by
  induction front generalizing p with
  | nil => rfl
  | cons s front ih =>
    simp only [List.cons_append, follow]
    split_ifs
    · rfl
    · exact ih p
    · exact ih p.dropLast
    · rfl
    · exact ih (p ++ [s])
    · rfl

/-- Where one name leads, the others are followed from. -/
theorem follow_cons_eq_ok {s : String} {rest : List String} (h : f.follow base (s :: rest) = .ok place) :
    f.follow (if s = "" ∨ s = "." then base else if s = ".." then base.dropLast else base ++ [s]) rest = .ok place := by
  rw [follow] at h
  split_ifs at h ⊢
  · exact h
  · exact h
  · exact h

/-- Without a step above, a path is followed down by the names in it. -/
theorem eq_append_of_follow {segments : List (List Char)} (habove : dotDot ∉ segments)
    (h : f.follow base (segments.map String.ofList) = .ok place) : place = base ++ (namesOf segments).map String.ofList := by
  induction segments generalizing base with
  | nil => simpa [namesOf, follow, eq_comm] using h
  | cons s segments ih =>
    have hnext := follow_cons_eq_ok h
    have hrest := fun {p} => @ih p fun hmem => habove (List.mem_cons_of_mem s hmem)
    have hname : ∀ t, String.ofList s = String.ofList t ↔ s = t := fun t => String.ofList_inj
    have hstay : String.ofList s = "" ∨ String.ofList s = "." ↔ s = [] ∨ s = dot := or_congr (hname []) (hname dot)
    have hleave : String.ofList s = ".." ↔ s = dotDot := hname dotDot
    simp only [hstay, hleave] at hnext
    rcases segment_cases s with hs | rfl | hs
    · rw [if_pos hs] at hnext
      rw [hrest hnext, namesOf_cons_of_stay hs]
    · exact absurd List.mem_cons_self habove
    · rw [if_neg (not_or.mpr ⟨hs.1, hs.2.1⟩), if_neg hs.2.2] at hnext
      rw [hrest hnext, namesOf_cons_of_isName hs, List.map_cons, List.append_assoc]
      rfl

/-- The rest of a joined path is followed from where the first path leads. -/
theorem follow_join (hpath : ¬['/'] <+: path.toList) {start : Place} (hbase : f.follow start (names root.toList) = .ok base) :
    f.follow start (names (join root path).toList) = f.follow base (names path.toList) := by
  obtain ⟨front, hjoin, hroot⟩ := exists_segments_join hpath root
  have hfront : f.follow start (front.map String.ofList) = .ok base := by
    rcases hroot with hroot | hroot
    · rwa [names, hroot] at hbase
    · rw [names, hroot, List.map_append, follow_append] at hbase
      cases hq : f.follow start (front.map String.ofList) with
      | error e =>
        rw [hq] at hbase
        cases hbase
      | ok q =>
        rw [hq] at hbase
        have hstay : f.follow q [] = .ok base := follow_cons_eq_ok hbase
        exact hstay
  rw [names, hjoin, List.map_append, follow_append, hfront]
  rfl

/-- How a path is found: it is the root, it is followed from the directory of the root, or it is followed from here. -/
theorem cases_of_locate (h : f.locate path = .ok place) : path ≠ "" ∧
    ((path = f.root ∧ place = f.home) ∨
      (∃ rest, path = f.root ++ "/" ++ rest ∧ f.follow f.home (names rest.toList) = .ok place) ∨
      ((∀ rest, path ≠ f.root ++ "/" ++ rest) ∧ ¬['/'] <+: path.toList ∧ f.follow f.here (names path.toList) = .ok place)) := by
  have hstrip : ∀ rest, Text.stripStart? (f.root ++ "/").toList path.toList = some rest ↔
      path = f.root ++ "/" ++ String.ofList rest := by
    intro rest
    rw [Text.stripStart?_eq_some_iff, ← String.toList_inj]
    simp only [String.toList_append, String.toList_ofList]
  have hbelow : ∀ rest, Text.stripStart? (f.root ++ "/").toList path.toList = some rest →
      f.follow f.home (names rest) = .ok place →
        ∃ rest, path = f.root ++ "/" ++ rest ∧ f.follow f.home (names rest.toList) = .ok place := fun rest hrest hfollow =>
    ⟨String.ofList rest, (hstrip rest).mp hrest, by rwa [String.toList_ofList]⟩
  rw [locate] at h
  split_ifs at h with hzero hempty hsize hroot hstart
  · exact ⟨hempty, .inl ⟨hroot, (Except.ok.inj h).symm⟩⟩
  · refine ⟨hempty, .inr (.inl ?_)⟩
    split at h
    · next rest hrest => exact hbelow rest hrest h
    · cases h
  · refine ⟨hempty, .inr ?_⟩
    split at h
    · next rest hrest => exact .inl (hbelow rest hrest h)
    · next hnone =>
      refine .inr ⟨fun rest hrest => ?_, mt Text.startsWith_iff.mpr hstart, h⟩
      have hsome := (hstrip rest.toList).mpr (by rw [String.ofList_toList, hrest])
      rw [hnone] at hsome
      cases hsome

/-- What is joined to a path below a directory is joined to the rest of that path. -/
theorem join_below (hpath : ¬['/'] <+: path.toList) (top rest : String) :
    join (top ++ "/" ++ rest) path = top ++ "/" ++ join rest path := by
  have hends : top ++ "/" ++ rest = "" ∨ ['/'] <:+ (top ++ "/" ++ rest).toList ↔ rest = "" ∨ ['/'] <:+ rest.toList := by
    rcases List.eq_nil_or_concat rest.toList with hrest | ⟨front, c, hrest⟩
    · simp [String.toList_eq_nil_iff.mp hrest]
    · have hne : rest ≠ "" := by
        rintro rfl
        simp at hrest
      have happend : (top ++ "/" ++ rest).toList = top.toList ++ '/' :: front ++ [c] := by simp [hrest]
      have hlast : ∀ front : List Char, ['/'] <:+ front ++ [c] ↔ c = '/' := fun front =>
        ⟨fun ⟨t, ht⟩ => (List.cons.inj (List.append_inj' ht rfl).2).1.symm, fun hc => hc ▸ List.suffix_append front ['/']⟩
      rw [happend, hrest, List.concat_eq_append, hlast, hlast]
      simp [hne]
  rw [join_eq hpath, join_eq hpath]
  simp only [hends]
  split_ifs <;> simp only [String.append_assoc]

/-- The path that leads to the directory `home` begins at the root of the system; if it is empty, `home` is that root. -/
def Rooted (f : Files) : Prop := f.root = "" ∨ ['/'] <+: f.root.toList

/-- A path that is joined to a root leads to where it leads from there. -/
theorem follow_of_locate_join (hf : Rooted f) (hne : path ≠ "") (hpath : ¬['/'] <+: path.toList)
    (hbase : f.locate root = .ok base) (hplace : f.locate (join root path) = .ok place) :
    f.follow base (names path.toList) = .ok place := by
  have hslash : ['/'] <+: (join root path).toList ↔ ['/'] <+: root.toList := by
    rw [← Text.startsWith_iff, startsWith_join hpath, Text.startsWith_iff]
  have hcancel : ∀ {a b c : String}, a ++ b = a ++ c → b = c := fun h =>
    String.toList_inj.mp (by simpa [← String.toList_inj] using h)
  obtain ⟨hroot, hfound⟩ := cases_of_locate hbase
  obtain ⟨hjoin, hled⟩ := cases_of_locate hplace
  rcases hfound with ⟨rfl, rfl⟩ | ⟨below, rfl, hfound⟩ | ⟨-, hnot, hfound⟩
  · rcases hled with ⟨hled, -⟩ | ⟨rest, hled, hfollow⟩ | ⟨-, hled, -⟩
    · rw [join_eq hpath] at hled
      split_ifs at hled <;> simp [← String.toList_inj, hne] at hled
    · rw [join_eq hpath] at hled
      split_ifs at hled
      · rw [String.append_assoc] at hled
        exact absurd ⟨rest.toList, by simp [hcancel hled]⟩ hpath
      · rwa [hcancel hled]
    · exact absurd (hslash.mpr (hf.resolve_left hroot)) hled
  · rw [join_below hpath] at hled
    rcases hled with ⟨hled, -⟩ | ⟨rest, hled, hfollow⟩ | ⟨hled, -⟩
    · simp [← String.toList_inj] at hled
    · rwa [← hcancel hled, follow_join hpath hfound] at hfollow
    · exact absurd rfl (hled _)
  · -- What begins at no root is neither the root nor below it.
    rcases hled with ⟨hled, -⟩ | ⟨rest, hled, -⟩ | ⟨-, -, hfollow⟩
    · rcases hf with hf | hf
      · exact absurd (hled.trans hf) hjoin
      · exact absurd (hslash.mp (hled ▸ hf)) hnot
    · refine absurd (hslash.mp ?_) hnot
      rw [hled]
      rcases hf with hf | ⟨back, hback⟩
      · simp [hf]
      · simp [← hback]
    · rwa [follow_join hpath hfound] at hfollow

end Files

namespace Checkout

open ContractMigration.Path

variable {c : Checkout} {f : Files} {path p text : String}

theorem exists_resolve_iff : (∃ p, c.resolve path = .ok p) ↔ staysInside path.toList = true := by
  rw [resolve]
  split_ifs with h <;> simp [h]

theorem eq_join_of_resolve (h : c.resolve path = .ok p) : p = Files.join c.root path := by
  rw [resolve] at h
  split_ifs at h
  exact (Except.ok.inj h).symm

/-- Nothing is read but at the path that the guard gives. -/
theorem text_of_content (h : c.content f path = .ok text) : ∃ p, c.resolve path = .ok p ∧ f.text p = .ok text := by
  cases hp : c.resolve path with
  | error e =>
    rw [content, hp] at h
    cases h
  | ok p =>
    obtain rfl := eq_join_of_resolve hp
    exact ⟨_, rfl, (content_eq_ok_iff hp).mp h⟩

/-- The guard accepts a path exactly if it is not empty, does not begin at the root of the system, and takes no step above;
that is, if taken apart it has only names and perhaps a dot in front. An accepted path, joined to the root of the checkout,
leads by its text to where the root leads and on from there by the names in it. What is read is read there; and if the root
is found at a place and the file is found, it is found below that place. -/
theorem resolve_below (c : Checkout) (path : String) :
    let names := namesOf (Text.segments '/' path.toList)
    ((∃ p, c.resolve path = .ok p) ↔
      path ≠ "" ∧ ¬['/'] <+: path.toList ∧ dotDot ∉ Text.segments '/' path.toList) ∧
    ((∃ p, c.resolve path = .ok p) ↔ path ≠ "" ∧ ∀ x ∈ takenApart path.toList, x.Inner) ∧
    (∀ s ∈ names, IsName s ∧ '/' ∉ s) ∧
    (∀ p, c.resolve path = .ok p → lexical p.toList = (lexical c.root.toList).enter names ∧
      ∀ f base place, Files.Rooted f → f.locate c.root = .ok base → f.locate p = .ok place →
        place = base ++ names.map String.ofList) ∧
    ∀ f text, c.content f path = .ok text → ∃ p, c.resolve path = .ok p ∧ f.text p = .ok text := by
  intro names
  have hempty : path.toList ≠ [] ↔ path ≠ "" := not_congr String.toList_eq_nil_iff
  refine ⟨?text, ?components, fun s hs => ?names, fun p hp => ?inside, fun f text => text_of_content⟩
  case text => rw [exists_resolve_iff, staysInside_iff, hempty]
  case components => rw [exists_resolve_iff, staysInside_eq_true_iff, hempty]
  case names =>
    obtain ⟨hs, hname⟩ := List.mem_filter.mp hs
    exact ⟨by simpa using hname, Text.notMem_of_mem_segments hs⟩
  case inside =>
    obtain rfl := eq_join_of_resolve hp
    obtain ⟨hne, hslash, habove⟩ := staysInside_iff.mp (exists_resolve_iff.mp ⟨_, hp⟩)
    refine ⟨Files.lexical_join hslash habove c.root, fun f base place hf hbase hplace => ?_⟩
    exact Files.eq_append_of_follow habove (Files.follow_of_locate_join hf (hempty.mp hne) hslash hbase hplace)

/-- A dot in front and two slashes in a row lead nowhere else. -/
theorem resolve_below_dot :
    let f := besideCheckout [(["src", "A.sol"], "contract A \x7b\x7d")]
    innerCheckout.resolve "./src//A.sol" = .ok "/work/inner/./src//A.sol" ∧ Files.Rooted f ∧
      f.locate "/work/inner" = .ok ["work", "inner"] ∧
      f.locate "/work/inner/./src//A.sol" = .ok ["work", "inner", "src", "A.sol"] ∧
      innerCheckout.content f "./src//A.sol" = .ok "contract A \x7b\x7d" ∧
      lexical "/work/inner/./src//A.sol".toList = (lexical "/work/inner".toList).enter ["src".toList, "A.sol".toList] ∧
      ["work", "inner", "src", "A.sol"] = ["work", "inner"] ++ ["src", "A.sol"] ∧
      f.text "/work/inner/./src//A.sol" = .ok "contract A \x7b\x7d" := by
  intro f
  have hresolve : innerCheckout.resolve "./src//A.sol" = .ok "/work/inner/./src//A.sol" := by decide +kernel
  have hf : f.Rooted := .inr (by decide)
  have hroot : f.locate innerCheckout.root = .ok ["work", "inner"] :=
    Files.locate_below "inner".toList (by decide) (by decide) (by decide)
  have hplace : f.locate "/work/inner/./src//A.sol" = .ok ["work", "inner", "src", "A.sol"] :=
    (Files.locate_below "inner/./src//A.sol".toList (by decide) (by decide) (by decide)).trans (by decide +kernel)
  have htext := Files.text_of_locate "contract A \x7b\x7d" hplace rfl
  have hcontent : innerCheckout.content f "./src//A.sol" = .ok "contract A \x7b\x7d" :=
    (content_eq_ok_iff hresolve).mpr htext
  obtain ⟨-, -, -, hinside, hread⟩ := resolve_below innerCheckout "./src//A.sol"
  obtain ⟨hlexical, hbelow⟩ := hinside _ hresolve
  obtain ⟨p, hp, hptext⟩ := hread f _ hcontent
  obtain rfl := Except.ok.inj (hresolve.symm.trans hp)
  exact ⟨hresolve, hf, hroot, hplace, hcontent, hlexical, hbelow f _ _ hf hroot hplace, hptext⟩

end Checkout

end ContractMigration
