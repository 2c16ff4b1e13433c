import ContractMigration.Proofs.Repository.Routes

/-! Canonical paths. The segments of a path are followed from the root, and the canonical form spells the names that are
left on the stack. Names are followed to themselves, so the form is followed to where the path is: it is its own canonical
form, and it may stand for the path in front of whatever is followed on from there, also where that steps back over names
of the path, and over the root. -/

namespace ContractMigration.Path

variable {names segments stack : List (List Char)} {s : List Char}

/-- The path is empty, or names with a slash between each two of them. -/
def Clean (path : String) : Prop := ∃ names, (∀ s ∈ names, IsName s ∧ '/' ∉ s) ∧ path = spell names

/-! ### Names on the stack -/

/-- Only names come on the stack, and only those that were followed. -/
theorem mem_foldl_step (h : s ∈ segments.foldl step stack) : s ∈ stack ∨ (s ∈ segments ∧ IsName s) := by
  induction segments generalizing stack with
  | nil => exact .inl h
  | cons t segments ih =>
    rcases ih h with h | ⟨hmem, hs⟩
    · rcases segment_cases t with ht | rfl | ht
      · rw [step, if_pos ht] at h
        exact .inl h
      · exact .inl (List.mem_of_mem_tail h)
      · rw [step_of_isName ht, List.mem_cons] at h
        rcases h with rfl | h
        · exact .inr ⟨List.mem_cons_self, ht⟩
        · exact .inl h
    · exact .inr ⟨List.mem_cons_of_mem t hmem, hs⟩

theorem mem_follow (h : s ∈ follow segments) : s ∈ segments ∧ IsName s :=
  (mem_foldl_step (List.mem_reverse.mp h)).resolve_left List.not_mem_nil

theorem normalize_eq_spell (path : String) : normalize path = spell (follow (Text.segments '/' path.toList)) := rfl

theorem clean_normalize (path : String) : Clean (normalize path) :=
  ⟨_, fun _ h => ⟨(mem_follow h).2, Text.notMem_of_mem_segments (mem_follow h).1⟩, normalize_eq_spell path⟩

/-! ### Following names -/

/-- The names that a clean path spells lie on the stack when it was followed. -/
theorem foldl_step_spell (h : ∀ s ∈ names, IsName s ∧ '/' ∉ s) :
    (Text.segments '/' (spell names).toList).foldl step [] = names.reverse := by
  rw [toList_spell]
  exact (leads_joinWith (fun s hs => (h s hs).1) (fun s hs => (h s hs).2) []).foldl_step

theorem normalize_spell (h : ∀ s ∈ names, IsName s ∧ '/' ∉ s) : normalize (spell names) = spell names := by
  rw [normalize_eq_spell, follow, foldl_step_spell h, List.reverse_reverse]

theorem normalize_eq_self_iff {path : String} : normalize path = path ↔ Clean path := by
  constructor
  · intro h
    exact h ▸ clean_normalize path
  · rintro ⟨names, hnames, rfl⟩
    exact normalize_spell hnames

/-- A path and its canonical form leave the same names on the stack. -/
theorem foldl_step_normalize (path : String) :
    (Text.segments '/' (normalize path).toList).foldl step [] = (Text.segments '/' path.toList).foldl step [] := by
  have hnames : ∀ s ∈ follow (Text.segments '/' path.toList), IsName s ∧ '/' ∉ s := fun s h =>
    ⟨(mem_follow h).2, Text.notMem_of_mem_segments (mem_follow h).1⟩
  rw [normalize_eq_spell, foldl_step_spell hnames, follow, List.reverse_reverse]

/-- Behind a slash, a path goes on from the stack that the path in front of it leaves. -/
theorem normalize_append_slash (front back : String) :
    normalize (front ++ "/" ++ back) =
      spell ((Text.segments '/' back.toList).foldl step ((Text.segments '/' front.toList).foldl step [])).reverse := by
  have htoList : (front ++ "/" ++ back).toList = front.toList ++ '/' :: back.toList := by simp
  rw [normalize_eq_spell, follow, htoList, Text.segments_append_cons, List.foldl_append]

/-- The canonical form spells the place where the segments of the path arrive from the root. It is clean, and it is the path
itself exactly if the path is clean. A path whose front is replaced by its canonical form keeps its own, however far the rest
steps back. -/
theorem normalize_clean_append (a b : String) :
    (∃ place, Arrives [] (Text.segments '/' a.toList) place ∧ normalize a = spell place) ∧
      Clean (normalize a) ∧ normalize (normalize a) = normalize a ∧ (normalize a = a ↔ Clean a) ∧
        normalize (a ++ "/" ++ b) = normalize (normalize a ++ "/" ++ b) := by
  have hclean := clean_normalize a
  refine ⟨⟨_, arrives_foldl_step _ [], rfl⟩, hclean, normalize_eq_self_iff.mpr hclean, normalize_eq_self_iff, ?_⟩
  rw [normalize_append_slash, normalize_append_slash, foldl_step_normalize]

/-- The second part steps back over both names of the first one, and once more at the root. -/
example : normalize "src/./token/" = "src/token" ∧ normalize "src/token/../../../lib//A.sol" = "lib/A.sol" := by decide

end ContractMigration.Path
