import ContractMigration.Solidity.Layout
import Mathlib.Data.List.Basic
import Mathlib.Data.Nat.Notation
import Mathlib.Tactic.SplitIfs

/-! Layout by itself: white space and whole comments, which are read as such whatever follows them. What is left of a gap
between two tokens when a part of it has become a space is layout again, and a comment that is not closed is not closed by
it. -/

namespace ContractMigration.Solidity

/-! ### Layout -/

/-- From inside a gap, a piece of text leads behind the last comment. -/
inductive Gap.Ends : Gap → List Char → Prop
  | nothing : Ends .blank []
  | blank {c : Char} {l : List Char} (hc : isLayout c = true) (h : Ends .blank l) : Ends .blank (c :: l)
  | openLine {l : List Char} (h : Ends .lineComment l) : Ends .blank ('/' :: '/' :: l)
  | openBlock {l : List Char} (h : Ends .blockComment l) : Ends .blank ('/' :: '*' :: l)
  | endLine {c : Char} {l : List Char} (hc : isLineEnd c = true) (h : Ends .blank l) : Ends .lineComment (c :: l)
  | inLine {c : Char} {l : List Char} (hnul : isNul c = false) (hc : isLineEnd c = false) (h : Ends .lineComment l) :
      Ends .lineComment (c :: l)
  | endBlock {l : List Char} (h : Ends .blank l) : Ends .blockComment ('*' :: '/' :: l)
  | inBlock {c : Char} {l : List Char} (hnul : isNul c = false) (hc : c = '*' → l.head? ≠ some '/')
      (h : Ends .blockComment l) : Ends .blockComment (c :: l)

/-- White space and whole comments. -/
def IsLayout (l : List Char) : Prop := Gap.blank.Ends l

theorem isNul_of_isLineEnd {c : Char} (h : isLineEnd c = true) : isNul c = false := by
  rw [isLineEnd, Bool.or_eq_true, beq_iff_eq, beq_iff_eq] at h
  rcases h with rfl | rfl <;> rfl

theorem isNul_of_isLayout {c : Char} (h : isLayout c = true) : isNul c = false := by
  rw [isNul, beq_eq_false_iff_ne]
  rintro rfl
  exact absurd h (by decide)

theorem not_slash_of_isLayout {c : Char} (h : isLayout c = true) : c ≠ '/' := by
  rintro rfl
  exact absurd h (by decide)

/-! ### Sizes -/

namespace Gap

attribute [local simp] size?

/-- Only a block comment can be without an end. -/
theorem size?_ne_none (p : Gap) (s : List Char) (hp : p ≠ .blockComment) : p.size? s ≠ none := by
  fun_induction size? p s with
  | case1 r ih => simpa using ih nofun
  | case2 r ih => exact nofun
  | case3 c r _ _ hc ih => simpa using ih nofun
  | case4 c r _ _ hc => exact nofun
  | case5 c r hc => exact nofun
  | case6 c r hc ih =>
    refine fun h => ih ?_ (Option.map_eq_none_iff.mp h)
    split_ifs <;> exact nofun
  | case7 r ih => exact absurd rfl hp
  | case8 c r _ hc => exact absurd rfl hp
  | case9 c r _ hc ih => exact absurd rfl hp
  | case10 => exact absurd rfl hp
  | case11 p hp' => exact nofun

theorem size?_blank (s : List Char) : Gap.blank.size? s = some (layoutSize s) := by
  obtain ⟨n, hn⟩ := Option.ne_none_iff_exists'.mp (size?_ne_none .blank s nofun)
  rw [layoutSize, hn, Option.getD_some]

theorem size?_blockComment {c : Char} {r : List Char} (h : c = '*' → r.head? ≠ some '/') :
    Gap.blockComment.size? (c :: r) = if isNul c then none else (Gap.blockComment.size? r).map (· + 1) := by
  rw [size?]
  rintro r' rfl rfl
  exact h rfl rfl

/-- From inside a gap, a piece that leads behind the last comment is read as layout with what follows it. -/
theorem Ends.size? {p : Gap} {l : List Char} (h : p.Ends l) (x : List Char) :
    p.size? (l ++ x) = some (layoutSize x + l.length) := by
  induction h with
  | nothing => exact size?_blank x
  | @blank c l hc h ih =>
    have hslash := not_slash_of_isLayout hc
    rw [List.cons_append, Gap.size?, if_pos hc, ih]
    · rfl
    · exact fun r h => absurd h hslash
    · exact fun r h => absurd h hslash
  | openLine h ih => simp [ih, Nat.add_assoc]
  | openBlock h ih => simp [ih, Nat.add_assoc]
  | endLine hc h ih => simp [isNul_of_isLineEnd hc, hc, ih, Nat.add_assoc]
  | inLine hnul hc h ih => simp [hnul, hc, ih, Nat.add_assoc]
  | endBlock h ih => simp [ih, Nat.add_assoc]
  | @inBlock c l hnul hc h ih =>
    have hhead : (l ++ x).head? = l.head? := by
      cases h <;> rfl
    rw [List.cons_append, size?_blockComment (by rwa [hhead]), if_neg (by simp [hnul]), ih]
    rfl

theorem one_of_map {o : Option ℕ} {l : List Char} (h : o.map (· + 1) = some l.length) : ∃ a l', l = a :: l' := by
  obtain ⟨n, -, hn⟩ := Option.map_eq_some_iff.mp h
  exact List.length_pos_iff_exists_cons.mp (by omega)

theorem two_of_map {o : Option ℕ} {l : List Char} (h : o.map (· + 2) = some l.length) : ∃ a b l', l = a :: b :: l' := by
  match l, h with
  | a :: b :: l, _ => exact ⟨a, b, l, rfl⟩
  | [a], h => simp at h
  | [], h => simp at h

/-- Conversely, what is read as layout in front of a character leads behind the last comment. -/
theorem ends_of_size? {p : Gap} {l : List Char} {c : Char} {r : List Char} (hc : isNul c = false)
    (h : p.size? (l ++ c :: r) = some l.length) : p.Ends l := by
  generalize hs : l ++ c :: r = s at h
  fun_induction Gap.size? p s generalizing l with
  | case1 s ih =>
    obtain ⟨a, b, l, rfl⟩ := two_of_map h
    obtain ⟨rfl, rfl, hrest⟩ : a = '/' ∧ b = '/' ∧ l ++ c :: r = s := by simpa using hs
    exact .openLine (ih hrest (by simpa using h))
  | case2 s ih =>
    rcases hblock : Gap.blockComment.size? s with _ | n <;> rw [hblock] at h ih
    · obtain rfl : l = [] := List.length_eq_zero_iff.mp (Option.some.inj h).symm
      exact .nothing
    · obtain ⟨a, b, l, rfl⟩ := two_of_map (o := some n) h
      obtain ⟨rfl, rfl, hrest⟩ : a = '/' ∧ b = '*' ∧ l ++ c :: r = s := by simpa using hs
      exact .openBlock (ih hrest (by simpa using h))
  | case3 d s _ _ hd ih =>
    obtain ⟨a, l, rfl⟩ := one_of_map h
    obtain ⟨rfl, hrest⟩ : a = d ∧ l ++ c :: r = s := by simpa using hs
    exact .blank hd (ih hrest (by simpa using h))
  | case4 d s _ _ hd =>
    obtain rfl : l = [] := List.length_eq_zero_iff.mp (Option.some.inj h).symm
    exact .nothing
  | case5 d s hd =>
    obtain rfl : l = [] := List.length_eq_zero_iff.mp (Option.some.inj h).symm
    obtain ⟨rfl, -⟩ : c = d ∧ r = s := by simpa using hs
    exact absurd hd (by simp [hc])
  | case6 d s hd ih =>
    obtain ⟨a, l, rfl⟩ := one_of_map h
    obtain ⟨rfl, hrest⟩ : a = d ∧ l ++ c :: r = s := by simpa using hs
    have hl := ih hrest (by simpa using h)
    by_cases hend : isLineEnd a = true
    · rw [if_pos hend] at hl
      exact .endLine hend hl
    · rw [if_neg hend] at hl
      exact .inLine (by simpa using hd) (by simpa using hend) hl
  | case7 s ih =>
    obtain ⟨a, b, l, rfl⟩ := two_of_map h
    obtain ⟨rfl, rfl, hrest⟩ : a = '*' ∧ b = '/' ∧ l ++ c :: r = s := by simpa using hs
    exact .endBlock (ih hrest (by simpa using h))
  | case8 d s hd _ => cases h
  | case9 d s hstar hd ih =>
    obtain ⟨a, l, rfl⟩ := one_of_map h
    obtain ⟨rfl, hrest⟩ : a = d ∧ l ++ c :: r = s := by simpa using hs
    have hl := ih hrest (by simpa using h)
    refine .inBlock (by simpa using hd) (fun ha hhead => ?_) hl
    obtain ⟨l, rfl⟩ : ∃ l', l = '/' :: l' := List.head?_eq_some_iff.mp hhead
    exact hstar (l ++ c :: r) ha hrest.symm
  | case10 => cases h
  | case11 p hp => simp at hs

theorem Ends.append {p : Gap} {l m : List Char} (h : p.Ends l) (hm : Gap.blank.Ends m) : p.Ends (l ++ m) := by
  induction h with
  | nothing => exact hm
  | blank hc h ih => exact .blank hc ih
  | openLine h ih => exact .openLine ih
  | openBlock h ih => exact .openBlock ih
  | endLine hc h ih => exact .endLine hc ih
  | inLine hnul hc h ih => exact .inLine hnul hc ih
  | endBlock h ih => exact .endBlock ih
  | inBlock hnul hc h ih =>
    refine .inBlock hnul (fun hstar => ?_) ih
    have hhead := hc hstar
    cases h <;> exact hhead

theorem Ends.isNul_eq_false {p : Gap} {l : List Char} (h : p.Ends l) : ∀ c ∈ l, isNul c = false := by
  induction h with
  | nothing => simp
  | blank hc h ih => simpa using ⟨isNul_of_isLayout hc, ih⟩
  | openLine h ih => simpa using ⟨rfl, ih⟩
  | openBlock h ih => simpa using ⟨rfl, rfl, ih⟩
  | endLine hc h ih => simpa using ⟨isNul_of_isLineEnd hc, ih⟩
  | inLine hnul hc h ih => simpa using ⟨hnul, ih⟩
  | endBlock h ih => simpa using ⟨rfl, rfl, ih⟩
  | inBlock hnul hc h ih => simpa using ⟨hnul, ih⟩

/-! ### Comments without an end -/

/-- A comment has no end if a character in front of each possible one cannot stand in a comment. -/
theorem size?_blockComment_eq_none_iff {s : List Char} :
    Gap.blockComment.size? s = none ↔ ∀ u v, s = u ++ '*' :: '/' :: v → ∃ c ∈ u, isNul c = true := by
  induction s with
  | nil =>
    refine iff_of_true rfl fun u v h => ?_
    simp at h
  | cons c r ih =>
    by_cases hclose : c = '*' ∧ r.head? = some '/'
    · obtain ⟨rfl, hr⟩ := hclose
      obtain ⟨r, rfl⟩ := List.head?_eq_some_iff.mp hr
      rw [size?, size?_blank]
      exact iff_of_false nofun fun h => by simpa using h [] r rfl
    · have hsize := size?_blockComment (c := c) (r := r) fun hc hr => hclose ⟨hc, hr⟩
      have hfront : ∀ u v, c :: r = u ++ '*' :: '/' :: v ↔ ∃ u', u = c :: u' ∧ r = u' ++ '*' :: '/' :: v := by
        intro u v
        cases u with
        | nil =>
          refine iff_of_false (fun h => hclose ?_) (by simp)
          obtain ⟨rfl, rfl⟩ := List.cons.inj h
          exact ⟨rfl, rfl⟩
        | cons d u => simp [eq_comm]
      rw [hsize]
      split_ifs with hnul
      · refine iff_of_true rfl fun u v h => ?_
        obtain ⟨u, rfl, -⟩ := (hfront u v).mp h
        exact ⟨c, List.mem_cons_self, hnul⟩
      · rw [Option.map_eq_none_iff, ih]
        constructor
        · intro h u v hu
          obtain ⟨u, rfl, hr⟩ := (hfront u v).mp hu
          obtain ⟨d, hd, hnul⟩ := h u v hr
          exact ⟨d, List.mem_cons_of_mem _ hd, hnul⟩
        · intro h u v hu
          obtain ⟨d, hd, hnul'⟩ := h (c :: u) v (congrArg (c :: ·) hu)
          rcases List.mem_cons.mp hd with rfl | hd
          · exact absurd hnul' hnul
          · exact ⟨d, hd, hnul'⟩

/-- A space in place of a piece without such characters ends no comment. -/
theorem size?_blockComment_space {a piece b : List Char} (hpiece : ∀ c ∈ piece, isNul c = false)
    (h : Gap.blockComment.size? (a ++ piece ++ b) = none) : Gap.blockComment.size? (a ++ ' ' :: b) = none := by
  rw [size?_blockComment_eq_none_iff] at h ⊢
  intro u v huv
  rcases List.append_eq_append_iff.mp huv with ⟨w, rfl, hb⟩ | ⟨w, rfl, hv⟩
  · -- behind the space
    cases w with
    | nil => cases hb
    | cons d w =>
      obtain ⟨rfl, rfl⟩ := List.cons.inj hb
      obtain ⟨c, hc, hnul⟩ := h (a ++ piece ++ w) v (by simp)
      refine ⟨c, ?_, hnul⟩
      rcases List.mem_append.mp hc with hc | hc
      · rcases List.mem_append.mp hc with hc | hc
        · exact List.mem_append_left _ hc
        · exact absurd hnul (by simp [hpiece c hc])
      · exact List.mem_append_right _ (List.mem_cons_of_mem _ hc)
  · -- in front of it
    match w with
    | [] => cases hv
    | [_] => cases hv
    | _ :: _ :: w =>
      obtain ⟨rfl, rfl, -⟩ : _ = '*' ∧ _ = '/' ∧ _ := by simpa using hv.symm
      exact h u (w ++ piece ++ b) (by simp)

end Gap

/-! ### Where layout ends -/

theorem IsLayout.layoutSize_append {l : List Char} (h : IsLayout l) (x : List Char) :
    layoutSize (l ++ x) = layoutSize x + l.length := by
  have hsize := Gap.Ends.size? h x
  rw [Gap.size?_blank] at hsize
  exact Option.some.inj hsize

theorem layoutSize_of_ne_slash {c : Char} (r : List Char) (h : c ≠ '/') :
    layoutSize (c :: r) = if isLayout c then layoutSize r + 1 else 0 := by
  have hsize := Gap.size?_blank (c :: r)
  rw [Gap.size?, Gap.size?_blank] at hsize
  · split_ifs at hsize ⊢ with hc
    · exact (Option.some.inj hsize).symm
    · exact (Option.some.inj hsize).symm
  · exact fun r' h' => absurd h' h
  · exact fun r' h' => absurd h' h

/-- No layout stands in front of a character, unless it is white space or begins a comment that has an end. -/
theorem layoutSize_eq_zero_iff {c : Char} {r : List Char} : layoutSize (c :: r) = 0 ↔ isLayout c = false ∧
    (c = '/' → r.head? ≠ some '/' ∧ ∀ r', r = '*' :: r' → Gap.blockComment.size? r' = none) := by
  by_cases hc : c = '/'
  · subst hc
    have hsize := Gap.size?_blank ('/' :: r)
    have hslash : isLayout '/' = false := by decide
    simp only [hslash, true_and, forall_const]
    by_cases hline : r.head? = some '/'
    · obtain ⟨r, rfl⟩ := List.head?_eq_some_iff.mp hline
      rw [Gap.size?] at hsize
      obtain ⟨n, -, hn⟩ := Option.map_eq_some_iff.mp hsize
      exact iff_of_false (by omega) fun h => h.1 rfl
    · by_cases hblock : r.head? = some '*'
      · obtain ⟨r, rfl⟩ := List.head?_eq_some_iff.mp hblock
        rw [Gap.size?, Option.some.injEq] at hsize
        rw [← hsize]
        rcases h : Gap.blockComment.size? r with _ | n <;> simp [h]
      · rw [Gap.size?, if_neg (by simp [hslash])] at hsize
        · refine iff_of_true (Option.some.inj hsize).symm ⟨hline, ?_⟩
          rintro r' rfl
          exact absurd rfl hblock
        · rintro r' - rfl
          exact hline rfl
        · rintro r' - rfl
          exact hblock rfl
  · rw [layoutSize_of_ne_slash r hc]
    by_cases h : isLayout c = true <;> simp [h, hc]

/-- Layout that is not nothing begins with white space or a slash. -/
theorem IsLayout.head {c : Char} {l : List Char} (h : IsLayout (c :: l)) : isLayout c = true ∨ c = '/' := by
  cases h with
  | blank hc h => exact .inl hc
  | openLine h => exact .inr rfl
  | openBlock h => exact .inr rfl

/-- A gap in front of a token becomes another one, so that no comment without an end gets one. -/
structure Seam (gap gap' rest : List Char) : Prop where
  layout : IsLayout gap
  layout' : IsLayout gap'
  ne : gap ≠ []
  ne' : gap' ≠ []
  token : layoutSize rest = 0
  head : gap'.head? = some ' ' ∨ gap'.head? = gap.head?
  opens : ∀ a, Gap.blockComment.size? (a ++ (gap ++ rest)) = none → Gap.blockComment.size? (a ++ (gap' ++ rest)) = none

namespace Seam

/-- A part of a gap becomes a space, and what comes of the gap is layout, too. -/
theorem of_space {l₁ l₂ piece rest : List Char} (h : IsLayout (l₁ ++ piece ++ l₂))
    (h' : IsLayout (l₁ ++ ' ' :: l₂)) (hpiece : piece ≠ []) (hrest : layoutSize rest = 0) :
    Seam (l₁ ++ piece ++ l₂) (l₁ ++ ' ' :: l₂) rest where
  layout := h
  layout' := h'
  ne := by simp [hpiece]
  ne' := by simp
  token := hrest
  head := by cases l₁ <;> simp
  opens a ha := by
    have hnul : ∀ c ∈ piece, isNul c = false := fun c hc => h.isNul_eq_false c (by simp [hc])
    have hspace := Gap.size?_blockComment_space (a := a ++ l₁) (b := l₂ ++ rest) hnul (by simpa using ha)
    simpa using hspace

variable {gap gap' rest : List Char}

/-- The first character of a gap stands in no token, but it may be a slash. -/
theorem exists_head (hs : Seam gap gap' rest) :
    (∃ c l, gap = c :: l ∧ (isLayout c = true ∨ c = '/')) ∧ ∃ c l, gap' = c :: l ∧ (isLayout c = true ∨ c = '/') := by
  obtain ⟨c, l, rfl⟩ := List.exists_cons_of_ne_nil hs.ne
  obtain ⟨c', l', rfl⟩ := List.exists_cons_of_ne_nil hs.ne'
  exact ⟨⟨c, l, rfl, hs.layout.head⟩, c', l', rfl, hs.layout'.head⟩

/-- Where no layout stands in front of the gap, none stands there when the gap has changed. -/
theorem layoutSize_eq_zero (hs : Seam gap gap' rest) {c : Char} {r : List Char}
    (h : layoutSize (c :: r ++ (gap ++ rest)) = 0) : layoutSize (c :: r ++ (gap' ++ rest)) = 0 := by
  rw [List.cons_append, layoutSize_eq_zero_iff] at h ⊢
  refine ⟨h.1, fun hc => ?_⟩
  obtain ⟨hline, hblock⟩ := h.2 hc
  cases r with
  | cons d r =>
    refine ⟨hline, ?_⟩
    rintro _ ⟨⟩
    exact hs.opens r (hblock _ rfl)
  | nil =>
    obtain ⟨⟨d, l, rfl, hd⟩, d', l', rfl, hd'⟩ := hs.exists_head
    have hne : d' ≠ '/' := by
      rcases hs.head with hspace | hsame
      · rintro rfl
        cases hspace
      · rintro rfl
        exact hline hsame.symm
    refine ⟨by simpa using hne, ?_⟩
    rintro _ ⟨⟩
    rcases hd' with hd' | hd'
    · exact absurd hd' (by decide)
    · exact absurd hd' hne

end Seam

end ContractMigration.Solidity
