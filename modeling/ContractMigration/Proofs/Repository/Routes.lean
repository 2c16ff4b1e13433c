import ContractMigration.Proofs.Text.Cuts
import ContractMigration.Repository.Import

/-! Where imports lead. Segments are followed from a directory, which is the list of names that lead to it from the root: a
name enters, two dots go back one level, a dot or nothing stays. At the root there is no level above, and two dots stay as
well. An import that begins with a dot segment is followed from the directory of its file. The shortest way between two
files, and every detour of it over a directory that both have above them, is followed to the file it is made for. -/

namespace ContractMigration

namespace Path

/-! ### Following segments -/

/-- A segment that names something in a directory. -/
def IsName (s : List Char) : Prop := s ≠ [] ∧ s ≠ dot ∧ s ≠ dotDot

instance (s : List Char) : Decidable (IsName s) := inferInstanceAs (Decidable (_ ∧ _))

/-- Segments lead from a directory to a place, and no step goes above the root. -/
inductive Leads : (dir segments place : List (List Char)) → Prop
  | here (dir : List (List Char)) : Leads dir [] dir
  | stay {dir rest place : List (List Char)} {s : List Char} (hs : s = [] ∨ s = dot) (h : Leads dir rest place) :
      Leads dir (s :: rest) place
  | enter {dir rest place : List (List Char)} {s : List Char} (hs : IsName s) (h : Leads (dir ++ [s]) rest place) :
      Leads dir (s :: rest) place
  | leave {dir rest place : List (List Char)} {s : List Char} (h : Leads dir rest place) :
      Leads (dir ++ [s]) (dotDot :: rest) place

/-- Segments arrive at a place if they lead there, or if they lead to the root, step above it, and arrive from the root. -/
inductive Arrives : (dir segments place : List (List Char)) → Prop
  | leads {dir segments place : List (List Char)} (h : Leads dir segments place) : Arrives dir segments place
  | overshoots {dir front back place : List (List Char)} (hfront : Leads dir front []) (hback : Arrives [] back place) :
      Arrives dir (front ++ dotDot :: back) place

variable {dir segments rest place : List (List Char)} {s : List Char}

theorem step_of_isName (hs : IsName s) (stack : List (List Char)) : step stack s = s :: stack := by
  rw [step, if_neg (not_or.mpr ⟨hs.1, hs.2.1⟩), if_neg hs.2.2]

theorem step_dotDot (stack : List (List Char)) : step stack dotDot = stack.tail := rfl

/-- A segment stays, steps above or is a name. -/
theorem segment_cases (s : List Char) : (s = [] ∨ s = dot) ∨ s = dotDot ∨ IsName s := by
  unfold IsName
  tauto

theorem Leads.foldl_step (h : Leads dir segments place) : segments.foldl step dir.reverse = place.reverse := by
  induction h with
  | here dir => rfl
  | stay hs h ih => rwa [List.foldl_cons, step, if_pos hs]
  | enter hs h ih =>
    rw [List.reverse_concat] at ih
    rwa [List.foldl_cons, step_of_isName hs]
  | leave h ih => rwa [List.foldl_cons, List.reverse_concat, step_dotDot, List.tail_cons]

theorem Arrives.foldl_step (h : Arrives dir segments place) : segments.foldl step dir.reverse = place.reverse := by
  induction h with
  | leads h => exact h.foldl_step
  | overshoots hfront hback ih =>
    rw [List.foldl_append, hfront.foldl_step]
    exact ih

/-- What is true of a first segment that leads on is true where the rest arrives. -/
theorem Arrives.cons {inner : List (List Char)} (hs : ∀ {rest place}, Leads inner rest place → Leads dir (s :: rest) place)
    (h : Arrives inner rest place) : Arrives dir (s :: rest) place := by
  cases h with
  | leads h => exact .leads (hs h)
  | overshoots hfront hback => exact .overshoots (hs hfront) hback

/-- Segments always arrive somewhere, and that is where the stack of names leads. -/
theorem arrives_foldl_step (segments dir : List (List Char)) : Arrives dir segments (segments.foldl step dir.reverse).reverse := by
  induction segments generalizing dir with
  | nil => simpa using Arrives.leads (.here dir)
  | cons s rest ih =>
    rw [List.foldl_cons]
    rcases segment_cases s with hs | rfl | hs
    · rw [step, if_pos hs]
      exact (ih dir).cons (.stay hs)
    · rw [step_dotDot]
      rcases List.eq_nil_or_concat dir with rfl | ⟨up, name, rfl⟩
      · have hover : Arrives [] ([] ++ dotDot :: rest) _ := .overshoots (.here []) (ih [])
        exact hover
      · rw [List.concat_eq_append, List.reverse_concat, List.tail_cons]
        exact (ih up).cons .leave
    · rw [step_of_isName hs, ← List.reverse_concat]
      exact (ih (dir ++ [s])).cons (.enter hs)

/-- Segments arrive at one place from each directory, the one that the stack of names holds in the end. -/
theorem arrives_iff : Arrives dir segments place ↔ segments.foldl step dir.reverse = place.reverse := by
  refine ⟨Arrives.foldl_step, fun h => ?_⟩
  have harrives := arrives_foldl_step segments dir
  rwa [h, List.reverse_reverse] at harrives

/-! ### Ways -/

theorem Leads.append {mid : List (List Char)} (h : Leads dir segments mid) (hrest : Leads mid rest place) :
    Leads dir (segments ++ rest) place := by
  induction h with
  | here dir => exact hrest
  | stay hs h ih => exact .stay hs (ih hrest)
  | enter hs h ih => exact .enter hs (ih hrest)
  | leave h ih => exact .leave (ih hrest)

theorem leads_names {names : List (List Char)} (h : ∀ s ∈ names, IsName s) (dir : List (List Char)) :
    Leads dir names (dir ++ names) := by
  induction names generalizing dir with
  | nil => simpa using Leads.here dir
  | cons s names ih =>
    obtain ⟨hs, hnames⟩ := List.forall_mem_cons.mp h
    have hinner := ih hnames (dir ++ [s])
    rw [List.append_assoc] at hinner
    exact .enter hs hinner

/-- As many steps above as there are names lead out of all of them. -/
theorem leads_above (dir names : List (List Char)) : Leads (dir ++ names) (List.replicate names.length dotDot) dir := by
  induction names using List.reverseRecOn with
  | nil => simpa using Leads.here dir
  | append_singleton names s ih =>
    rw [List.length_append, List.length_singleton, List.replicate_succ, ← List.append_assoc]
    exact .leave ih

/-- What leads on from two dots leads on from the directory above, and there is one. -/
theorem leads_dotDot_iff : Leads dir (dotDot :: rest) place ↔ ∃ up name, dir = up ++ [name] ∧ Leads up rest place := by
  constructor
  · intro h
    generalize hs : dotDot = s at h
    cases h with
    | stay hstay h =>
      subst hs
      rcases hstay with hstay | hstay <;> cases hstay
    | enter hname h => exact absurd hs.symm hname.2.2
    | leave h => exact ⟨_, _, rfl, h⟩
  · rintro ⟨up, name, rfl, h⟩
    exact .leave h

/-! ### Spelled paths -/

/-- The path of a place. -/
def spell (names : List (List Char)) : String := String.ofList (Text.joinWith ['/'] names)

@[simp] theorem toList_spell (names : List (List Char)) : (spell names).toList = Text.joinWith ['/'] names := String.toList_ofList

/-- A name as a canonical path has it: no separator stands in it. -/
structure Plain (s : List Char) : Prop where
  isName : IsName s
  noSlash : '/' ∉ s
  noBackslash : '\\' ∉ s

instance (s : List Char) : Decidable (Plain s) :=
  decidable_of_iff (IsName s ∧ '/' ∉ s ∧ '\\' ∉ s) ⟨fun ⟨hname, hslash, hback⟩ => ⟨hname, hslash, hback⟩,
    fun ⟨hname, hslash, hback⟩ => ⟨hname, hslash, hback⟩⟩

/-- The names of a canonical file path, one for each level. -/
structure Canonical (names : List (List Char)) : Prop where
  ne_nil : names ≠ []
  plain : ∀ s ∈ names, Plain s

instance (names : List (List Char)) : Decidable (Canonical names) :=
  decidable_of_iff (names ≠ [] ∧ ∀ s ∈ names, Plain s) ⟨fun ⟨hne, hplain⟩ => ⟨hne, hplain⟩, fun ⟨hne, hplain⟩ => ⟨hne, hplain⟩⟩

variable {names : List (List Char)}

theorem slashed_of_notMem {path : List Char} (h : '\\' ∉ path) : slashed path = path := Text.replaceChar_of_notMem h

theorem slashed_slashed (path : List Char) : slashed (slashed path) = slashed path :=
  slashed_of_notMem (Text.notMem_replaceChar (by decide) path)

theorem slashed_append (front back : List Char) : slashed (front ++ back) = slashed front ++ slashed back :=
  Text.replaceChar_append '\\' '/' front back

/-- A path of plain names has no separators but slashes. -/
theorem slashed_joinWith (h : ∀ s ∈ names, Plain s) : slashed (Text.joinWith ['/'] names) = Text.joinWith ['/'] names := by
  have hmap : names.map (Text.replaceChar '\\' '/') = names.map id :=
    List.map_congr_left fun s hs => Text.replaceChar_of_notMem (h s hs).noBackslash
  rw [slashed, Text.replaceChar_joinWith, hmap, List.map_id]
  rfl

/-- The path of names leads to where they lead, also the empty one. -/
theorem leads_joinWith (hname : ∀ s ∈ names, IsName s) (hslash : ∀ s ∈ names, '/' ∉ s) (dir : List (List Char)) :
    Leads dir (Text.segments '/' (Text.joinWith ['/'] names)) (dir ++ names) := by
  rcases eq_or_ne names [] with rfl | hne
  · rw [List.append_nil]
    exact .stay (.inl rfl) (.here dir)
  · rw [Text.segments_joinWith hslash hne]
    exact leads_names hname dir

theorem Canonical.components (h : Canonical names) : components (Text.joinWith ['/'] names) = names := by
  rw [Path.components, Text.segments_joinWith (fun s hs => (h.plain s hs).noSlash) h.ne_nil, List.filter_eq_self]
  intro s hs
  obtain ⟨hne, hdot, -⟩ := (h.plain s hs).isName
  simp [hne, hdot]

end Path

namespace Import

open ContractMigration.Path

variable {source target path : String} {known prefixes : List String}

/-! ### Relative imports -/

/-- The segments of the directory of a file. -/
def directorySegments (source : String) : List (List Char) := Text.segments '/' (slashed (parent source.toList))

/-- The segments of an import. -/
def targetSegments (target : String) : List (List Char) := Text.segments '/' (slashed target.toList)

/-- Followed from the directory of its file, an import arrives at a path. -/
def LeadsTo (source target path : String) : Prop :=
  ∃ dir place, Arrives [] (directorySegments source) dir ∧ Arrives dir (targetSegments target) place ∧ spell place = path

theorem isRelative_iff {chars : List Char} : isRelative chars = true ↔ "./".toList <+: chars ∨ "../".toList <+: chars := by
  rw [isRelative, Bool.or_eq_true, Text.startsWith_iff, Text.startsWith_iff]

theorem isRelative_slashed {chars : List Char} (h : isRelative chars = true) : isRelative (slashed chars) = true := by
  have hdot : slashed "./".toList = "./".toList := slashed_of_notMem (by decide)
  have hdots : slashed "../".toList = "../".toList := slashed_of_notMem (by decide)
  rw [isRelative_iff] at h ⊢
  rcases h with ⟨rest, rfl⟩ | ⟨rest, rfl⟩
  · exact .inl ⟨slashed rest, by rw [slashed_append, hdot]⟩
  · exact .inr ⟨slashed rest, by rw [slashed_append, hdots]⟩

/-- A relative import names what its segments lead to behind those of the directory of its file. -/
theorem resolve_of_isRelative (hrel : isRelative target.toList = true) :
    resolve source target = spell (follow (directorySegments source ++ targetSegments target)) := by
  have hsegments : Text.segments '/' (slashed (if (parent source.toList).isEmpty then slashed target.toList
      else parent source.toList ++ '/' :: slashed target.toList)) =
        (if (parent source.toList).isEmpty then [] else directorySegments source) ++ targetSegments target := by
    split_ifs
    · rw [slashed_slashed]
      rfl
    · have hcons : slashed ('/' :: slashed target.toList) = '/' :: slashed (slashed target.toList) := rfl
      rw [slashed_append, hcons, slashed_slashed, Text.segments_append_cons]
      rfl
  rw [resolve, resolveChars, if_pos (isRelative_slashed hrel), normalizeChars, hsegments, spell]
  split_ifs with hempty
  · -- The directory of a file at the root has one segment, which is empty and stays.
    rw [directorySegments, List.isEmpty_iff.mp hempty]
    rfl
  · rfl

/-- The path that an import is resolved to is the one that it leads to. -/
theorem resolve_eq_iff (hrel : isRelative target.toList = true) : resolve source target = path ↔ LeadsTo source target path := by
  rw [resolve_of_isRelative hrel, follow, List.foldl_append]
  constructor
  · intro h
    have hdir := arrives_foldl_step (directorySegments source) []
    have hplace := arrives_foldl_step (targetSegments target) ((directorySegments source).foldl step []).reverse
    rw [List.reverse_reverse] at hplace
    exact ⟨_, _, hdir, hplace, h⟩
  · rintro ⟨dir, place, hdir, hplace, rfl⟩
    rw [← List.reverse_nil, arrives_iff.mp hdir, arrives_iff.mp hplace, List.reverse_reverse]

/-- The prefixes have no say about a relative import. -/
theorem check_of_isRelative (hrel : isRelative target.toList = true) : check source target known prefixes =
    if resolve source target ∈ known then .resolved (resolve source target) else .unresolved (resolve source target) := by
  simp [check, isExternal, hrel]

/-- A relative import is checked against the path that it leads to, whatever the prefixes. -/
theorem check_relative_iff (source target path : String) (known prefixes : List String) (hrel : isRelative target.toList = true) :
    (check source target known prefixes = .resolved path ↔ path ∈ known ∧ LeadsTo source target path) ∧
      (check source target known prefixes = .unresolved path ↔ path ∉ known ∧ LeadsTo source target path) ∧
      check source target known prefixes ≠ .external := by
  rw [check_of_isRelative hrel, ← resolve_eq_iff hrel]
  split_ifs with hknown
  · simp only [Resolution.resolved.injEq, false_iff, not_and]
    exact ⟨⟨fun h => ⟨h ▸ hknown, h⟩, And.right⟩, fun hpath h => hpath (h ▸ hknown), nofun⟩
  · simp only [Resolution.unresolved.injEq, false_iff, not_and]
    exact ⟨fun hpath h => hknown (h ▸ hpath), ⟨fun h => ⟨h ▸ hknown, h⟩, And.right⟩, nofun⟩

/-- The third step up stays at the root, and the way goes on from there. -/
theorem check_relative_over_root :
    isRelative "../../../lib/../B.sol".toList = true ∧
      check "src/token/Sale.sol" "../../../lib/../B.sol" ["B.sol"] externalPrefixes = .resolved "B.sol" ∧
        LeadsTo "src/token/Sale.sol" "../../../lib/../B.sol" "B.sol" := by
  have hrel : isRelative "../../../lib/../B.sol".toList = true := by decide
  have hcheck := check_relative_iff "src/token/Sale.sol" "../../../lib/../B.sol" "B.sol" ["B.sol"] externalPrefixes hrel
  have hresolved : check "src/token/Sale.sol" "../../../lib/../B.sol" ["B.sol"] externalPrefixes = .resolved "B.sol" := by
    decide
  exact ⟨hrel, hresolved, (hcheck.1.mp hresolved).2⟩

/-- An import whose second step up finds no directory above is resolved all the same. -/
theorem check_beyond_root :
    isRelative "../../B.sol".toList = true ∧
      check "src/A.sol" "../../B.sol" ["B.sol"] externalPrefixes = .resolved "B.sol" ∧
        Leads [] (directorySegments "src/A.sol") ["src".toList] ∧
          ∀ place, ¬Leads ["src".toList] (targetSegments "../../B.sol") place := by
  have hdir : directorySegments "src/A.sol" = ["src".toList] := by decide
  have htarget : targetSegments "../../B.sol" = [dotDot, dotDot, "B.sol".toList] := by decide
  refine ⟨by decide, by decide, hdir ▸ leads_names (by decide) [], fun place h => ?_⟩
  rw [htarget, leads_dotDot_iff] at h
  obtain ⟨up, name, hup, h⟩ := h
  obtain ⟨up', name', rfl, -⟩ := leads_dotDot_iff.mp h
  simpa using congrArg List.length hup

/-! ### Ways between files -/

/-- How many names two lists begin with in common. -/
def shared : List (List Char) → List (List Char) → Nat
  | s :: ss, t :: ts => if s = t then shared ss ts + 1 else 0
  | _, _ => 0

theorem le_shared_iff {k : Nat} {ss ts : List (List Char)} :
    k ≤ shared ss ts ↔ k ≤ ss.length ∧ k ≤ ts.length ∧ ss.take k = ts.take k := by
  induction ss generalizing ts k with
  | nil => cases k <;> simp [shared]
  | cons s ss ih =>
    cases ts with
    | nil => cases k <;> simp [shared]
    | cons t ts =>
      cases k with
      | zero => simp
      | succ k =>
        rw [shared]
        split_ifs with hst
        · simp [hst, ih]
        · simp [hst]

/-- One step up for each of `n` directories, and the directory itself if there is none. -/
def wayUp (n : Nat) : List Char := if n = 0 then "./".toList else (List.replicate n "../".toList).flatten

/-- The import that goes up to the first `k` directories of its file, and down to the target from there. -/
def wayTo (k : Nat) (source target : List (List Char)) : String :=
  String.ofList (wayUp (source.dropLast.length - k) ++ Text.joinWith ['/'] (target.drop k))

theorem segments_ups (n : Nat) (rest : List Char) :
    Text.segments '/' ((List.replicate n "../".toList).flatten ++ rest) = List.replicate n dotDot ++ Text.segments '/' rest := by
  induction n with
  | zero => rfl
  | succ n ih =>
    rw [List.replicate_succ, List.flatten_cons, List.append_assoc, List.replicate_succ, List.cons_append, ← ih]
    exact Text.segments_append_cons '/' dotDot _

theorem isRelative_wayUp (n : Nat) (rest : List Char) : isRelative (wayUp n ++ rest) = true := by
  rw [isRelative_iff, wayUp]
  cases n with
  | zero => exact .inl ⟨rest, rfl⟩
  | succ n =>
    rw [if_neg n.succ_ne_zero, List.replicate_succ, List.flatten_cons, List.append_assoc]
    exact .inr ⟨_, rfl⟩

theorem slashed_wayUp (n : Nat) : slashed (wayUp n) = wayUp n := by
  refine slashed_of_notMem ?_
  rw [wayUp]
  split_ifs
  · decide
  · simp [List.mem_flatten, List.mem_replicate]

/-- The way up leads out of as many directories. -/
theorem leads_wayUp {dir place : List (List Char)} {rest : List Char} (names : List (List Char))
    (h : Leads dir (Text.segments '/' rest) place) :
    Leads (dir ++ names) (Text.segments '/' (wayUp names.length ++ rest)) place := by
  rw [wayUp]
  split_ifs with hnone
  · rw [List.length_eq_zero_iff.mp hnone, List.append_nil]
    have hsegments : Text.segments '/' ("./".toList ++ rest) = dot :: Text.segments '/' rest :=
      Text.segments_append_cons '/' dot rest
    exact hsegments ▸ .stay (.inr rfl) h
  · rw [segments_ups]
    exact (leads_above dir names).append h

variable {k : Nat} {source target : List (List Char)}

theorem leads_directorySegments (hs : Canonical source) : Leads [] (directorySegments (spell source)) source.dropLast := by
  have hplain : ∀ s ∈ source.dropLast, Plain s := fun s h => hs.plain s (List.dropLast_subset source h)
  rw [directorySegments, toList_spell, parent, hs.components, slashed_joinWith hplain]
  exact leads_joinWith (fun s h => (hplain s h).isName) (fun s h => (hplain s h).noSlash) []

/-- The way goes up out of the directories that are not shared, and on by name. -/
theorem leads_targetSegments_wayTo (ht : Canonical target) (hk : k ≤ shared source.dropLast target.dropLast) :
    Leads source.dropLast (targetSegments (wayTo k source target)) target := by
  obtain ⟨-, hlength, htake⟩ := le_shared_iff.mp hk
  have hfront : source.dropLast.take k = target.take k := by
    rw [List.length_dropLast] at hlength
    rw [htake, List.dropLast_eq_take, List.take_take, Nat.min_eq_left hlength]
  have hplain : ∀ s ∈ target.drop k, Plain s := fun s h => ht.plain s (List.mem_of_mem_drop h)
  have hdown := leads_joinWith (fun s h => (hplain s h).isName) (fun s h => (hplain s h).noSlash) (source.dropLast.take k)
  have hway := leads_wayUp (source.dropLast.drop k) hdown
  rw [targetSegments, wayTo, String.toList_ofList, slashed_append, slashed_wayUp, slashed_joinWith hplain]
  rwa [List.take_append_drop, List.length_drop, hfront, List.take_append_drop] at hway

/-- Every way between two files resolves to the file it leads to. -/
theorem check_wayTo (k : Nat) (known prefixes : List String) (hs : Canonical source) (ht : Canonical target)
    (hk : k ≤ shared source.dropLast target.dropLast) :
    resolve (spell source) (wayTo k source target) = spell target ∧
      check (spell source) (wayTo k source target) known prefixes =
        if spell target ∈ known then .resolved (spell target) else .unresolved (spell target) := by
  have hrel : isRelative (wayTo k source target).toList = true := by
    rw [wayTo, String.toList_ofList]
    exact isRelative_wayUp _ _
  have hresolve : resolve (spell source) (wayTo k source target) = spell target :=
    (resolve_eq_iff hrel).mpr ⟨_, _, .leads (leads_directorySegments hs), .leads (leads_targetSegments_wayTo ht hk), rfl⟩
  exact ⟨hresolve, hresolve ▸ check_of_isRelative hrel⟩

/-- The shortest way from a token to its owner, and the detour over the root. -/
theorem check_wayTo_owned :
    let source := ["src".toList, "token".toList, "Sale.sol".toList]
    let target := ["src".toList, "access".toList, "Owned.sol".toList]
    Canonical source ∧ Canonical target ∧ shared source.dropLast target.dropLast = 1 ∧
      wayTo 1 source target = "../access/Owned.sol" ∧ wayTo 0 source target = "../../src/access/Owned.sol" ∧
      resolve "src/token/Sale.sol" "../access/Owned.sol" = "src/access/Owned.sol" ∧
      check "src/token/Sale.sol" "../../src/access/Owned.sol" ["src/access/Owned.sol"] externalPrefixes =
        .resolved "src/access/Owned.sol" := by
  intro source target
  have hs : Canonical source := by decide
  have ht : Canonical target := by decide
  have hshared : shared source.dropLast target.dropLast = 1 := by decide
  have hnear := check_wayTo 1 ["src/access/Owned.sol"] externalPrefixes hs ht (by decide)
  have hfar := check_wayTo 0 ["src/access/Owned.sol"] externalPrefixes hs ht (by decide)
  exact ⟨hs, ht, hshared, by decide, by decide, hnear.1, hfar.2⟩

end Import

end ContractMigration
