import ContractMigration.Proofs.Solidity.Elements
import ContractMigration.Proofs.Solidity.Extraction

/-! Spaces in place of comments and of other white space. Where a piece of the layout in front of a token becomes a space and
what comes of that is layout, the source is read as before, and as long as its names are legible they are the same. The
piece may be part of a comment, such as one up to the end of its line without that end. -/

namespace ContractMigration.Solidity

/-! ### The tokens of a source -/

theorem Reads.of_append {c c₂ : Cursor} {ts us : List Token} (h : Reads c (ts ++ us) c₂) :
    ∃ c₁, Reads c ts c₁ ∧ Reads c₁ us c₂ := by
  induction ts generalizing c with
  | nil => exact ⟨c, .nil c, h⟩
  | cons t ts ih =>
    cases h with
    | cons hp h =>
      obtain ⟨c₁, hts, hus⟩ := ih h
      exact ⟨c₁, .cons hp hts, hus⟩

theorem Reads.exists_ofText {s : List Char} {c : Cursor} {ts : List Token} (h : Reads (.ofText s) ts c) :
    ∃ s', c = .ofText s' := by
  generalize hc : Cursor.ofText s = c₀ at h
  induction h generalizing s with
  | nil => exact ⟨s, hc.symm⟩
  | cons hp _ ih =>
    obtain ⟨n, -, -, rfl⟩ := Pattern.read?_eq_some hp
    exact ih rfl

namespace Grammar

/-- No token of a source begins with the zero character. -/
theorem sound_of_parsePhrases {source : String} {trees : List Tree} {c : Cursor}
    (h : parsePhrases source = some (trees, c)) : ∀ t ∈ Tree.tokensOf trees, Sound t := by
  have hrules : ∀ n, (rule n).spells (Pattern.avoids '\x00') (fun _ => true) = true := by
    intro n
    cases n with
    | guarded b => cases b <;> decide +kernel
    | guardedOperand b => cases b <;> decide +kernel
    | _ => decide +kernel
  intro t ht
  obtain ⟨p, c₁, c₂, hp, hc₁, hread⟩ := Rule.read_of_spells (fun n _ => hrules n) rfl (Cursor.proper_ofText _) h t ht
  exact sound_of_read? hp hc₁ hread

end Grammar

/-! ### Trees with less layout -/

namespace Tree

variable {R S : Token → Token → Prop}

mutual

theorem Like.mono (hRS : ∀ t t', R t t' → S t t') : {t t' : Tree} → t.Like R t' → t.Like S t'
  | _, _, .leaf h => .leaf (hRS _ _ h)
  | _, _, .node p h => .node p (h.mono hRS)

theorem Likes.mono (hRS : ∀ t t', R t t' → S t t') : {ts ts' : List Tree} → Likes R ts ts' → Likes S ts ts'
  | _, _, .nil => .nil
  | _, _, .cons h hr => .cons (h.mono hRS) (hr.mono hRS)

end

end Tree

theorem calmer_of_paired {l₁ piece l₂ : List Char} {t t' : Token}
    (h : Paired (l₁ ++ piece ++ l₂) (l₁ ++ ' ' :: l₂) t t') : Calmer t t' := by
  refine ⟨h.1, fun c hc => ?_⟩
  rcases h.2 with hsame | ⟨lead, hlead, hlead'⟩
  · exact .inr (hsame ▸ hc)
  · rw [hlead', String.toList_ofList] at hc
    rw [hlead, String.toList_ofList]
    simp only [List.mem_append, List.mem_cons] at hc ⊢
    tauto

/-! ### A space in place of a piece -/

section Space

variable {a piece b : String} {trees : List Tree} {front back : List Token} {t : Token} {l₁ l₂ : List Char}
  (hparse : parse? (a ++ piece ++ b) = some trees) (htokens : Tree.tokensOf trees = front ++ t :: back)
  (hgap : t.leading.toList = l₁ ++ piece.toList ++ l₂) (ha : a.toList = Solidity.spelled front ++ l₁)
  (hlayout : IsLayout (l₁ ++ piece.toList ++ l₂)) (hlayout' : IsLayout (l₁ ++ ' ' :: l₂)) (hne : piece ≠ "")
  (hpragmas : pragmasEnd front = true) (hregular : regular [] front = true)
include hparse htokens hgap ha hlayout hlayout' hne hpragmas hregular

/-- The other source is read, too, and its trees differ in the layout in front of one token only. -/
theorem parse?_of_space : ∃ trees', parse? (a ++ " " ++ b) = some trees' ∧
    Tree.Likes (Paired (l₁ ++ piece.toList ++ l₂) (l₁ ++ ' ' :: l₂)) trees trees' := by
  obtain ⟨cEnd, hphrases, hend⟩ := Grammar.parse?_eq_some_iff.mp hparse
  have hsound := Grammar.sound_of_parsePhrases hphrases
  have hreads := Rule.reads_of_parse hphrases
  rw [htokens] at hsound hreads
  have hp : Parted (l₁ ++ piece.toList ++ l₂) (l₁ ++ ' ' :: l₂)
      (t.text.toList ++ (spelled back ++ (cEnd.lead ++ cEnd.text))) t back cEnd := by
    refine ⟨.of_space hlayout hlayout' (by simpa using hne) ?_, hgap, rfl, hend⟩
    -- where the token begins, no layout is left
    obtain ⟨c, hfront, hback⟩ := hreads.of_append
    obtain ⟨s, rfl⟩ := hfront.exists_ofText
    rw [← hback.text_eq]
    cases htext : (Cursor.ofText s).text with
    | nil => rfl
    | cons d r => exact (layoutSize_of_reads hback (fun v hv => hsound v (List.mem_append_right _ hv)) hend htext).2
  have hb : b.toList = l₂ ++ (t.text.toList ++ (spelled back ++ (cEnd.lead ++ cEnd.text))) := by
    have hsource := hreads.spelled.trans (hp.spelled_eq front)
    rw [Cursor.lead_append_text] at hsource
    simpa [ha] using hsource
  have hfacing : Facing (l₁ ++ piece.toList ++ l₂) (l₁ ++ ' ' :: l₂)
      (t.text.toList ++ (spelled back ++ (cEnd.lead ++ cEnd.text))) t back cEnd front
      (.ofText (a ++ piece ++ b).toList) (.ofText (a ++ " " ++ b).toList) :=
    ⟨hreads, hsound, ⟨[], hregular⟩, ⟨_, rfl⟩, by simp [ha, hb]⟩
  -- one bound is large enough for both texts
  obtain ⟨depth, hdepth, hdepth'⟩ : ∃ depth, depthFor (a ++ piece ++ b).length ≤ depth + 1 ∧
      depthFor (a ++ " " ++ b).length ≤ depth + 1 :=
    ⟨max (depthFor (a ++ piece ++ b).length) (depthFor (a ++ " " ++ b).length), by omega, by omega⟩
  rw [Grammar.parsePhrases_eq hdepth, Rule.parse_ref] at hphrases
  have hle := Cursor.length_ofText_le (a ++ piece ++ b).toList
  rw [String.length_toList] at hle
  obtain ⟨trees', hphrases', hlikes⟩ := Grammar.elements_of_facing hp (by rw [depthFor] at hdepth; omega) hphrases
    htokens hfacing hpragmas
  refine ⟨trees', Grammar.parse?_eq_some_iff.mpr ⟨cEnd, ?_, hend⟩, hlikes⟩
  rw [Grammar.parsePhrases_eq hdepth', Rule.parse_ref]
  exact hphrases'

/-- What is imported, what is declared and which parents are named stays the same, if the names are legible, and the names
of parents are dotted paths then. -/
theorem extract_of_space (path : String) (hlegible : Legible trees) :
    ∃ f f', extract path (a ++ piece ++ b) = .ok f ∧ extract path (a ++ " " ++ b) = .ok f' ∧ f'.imports = f.imports ∧
      f'.contracts.map heading = f.contracts.map heading ∧
      ∀ u ∈ f.contracts, ∀ name ∈ u.inherits, IsDottedPath name := by
  obtain ⟨trees', hparse', hpaired⟩ := parse?_of_space hparse htokens hgap ha hlayout hlayout' hne hpragmas hregular
  have hshape := Grammar.shape_of_parse? hparse
  have hlikes : Tree.Likes Calmer trees trees' := hpaired.mono fun _ _ => calmer_of_paired
  obtain ⟨himports, hheadings⟩ := extractTrees_of_likes path hlikes hshape hlegible
  exact ⟨extractTrees path trees, extractTrees path trees', extract_eq_ok hparse, extract_eq_ok hparse', himports,
    hheadings, fun u hu name => isDottedPath_of_mem_inherits hshape hlegible hu⟩

end Space

/-- A comment with parentheses in front of a parent, behind a pragma and an import. -/
theorem extract_of_space_parent :
    let a := "pragma solidity ^0.8.0;\nimport './Base.sol';\ncontract Vault is "
    let piece := "/* v2 (draft) */"
    let b := " Base \x7b\x7d"
    ∃ f f', extract "Vault.sol" (a ++ piece ++ b) = .ok f ∧ extract "Vault.sol" (a ++ " " ++ b) = .ok f' ∧
      f'.imports = f.imports ∧ f'.contracts.map heading = f.contracts.map heading ∧
      (∀ u ∈ f.contracts, ∀ name ∈ u.inherits, IsDottedPath name) ∧
      f.imports = ["./Base.sol"] ∧ f.contracts.map heading = [("Vault", ["Base"])] := by
  intro a piece b
  have hparse : parse? (a ++ piece ++ b) = some ((parse? (a ++ piece ++ b)).getD []) := by
    obtain ⟨trees, h⟩ := Option.isSome_iff_exists.mp (by decide +kernel : (parse? (a ++ piece ++ b)).isSome = true)
    rw [h, Option.getD_some]
  have hnames : (extract "Vault.sol" (a ++ piece ++ b)).toOption.map (fun f => (f.imports, f.contracts.map heading)) =
      some (["./Base.sol"], [("Vault", ["Base"])]) := by decide +kernel
  have hlayout : IsLayout ([' '] ++ piece.toList ++ [' ']) := Gap.ends_of_size? (c := 'B') (r := []) rfl (by decide +kernel)
  -- the comment stands in front of the parent, between two spaces
  have htokens : Tree.tokensOf ((parse? (a ++ piece ++ b)).getD []) =
      [⟨"", "pragma"⟩, ⟨" ", "solidity"⟩, ⟨" ", "^"⟩, ⟨"", "0.8.0"⟩, ⟨"", ";"⟩, ⟨"\n", "import"⟩, ⟨" ", "'./Base.sol'"⟩,
        ⟨"", ";"⟩, ⟨"\n", "contract"⟩, ⟨" ", "Vault"⟩, ⟨" ", "is"⟩] ++
      ⟨" /* v2 (draft) */ ", "Base"⟩ :: [⟨" ", "\x7b"⟩, ⟨"", "\x7d"⟩] := by decide +kernel
  have hgap : " /* v2 (draft) */ ".toList = [' '] ++ piece.toList ++ [' '] := by decide +kernel
  obtain ⟨f, f', hf, hf', himports, hheadings, hpaths⟩ := extract_of_space hparse htokens hgap (by decide +kernel)
    hlayout (.blank rfl (.blank rfl (.blank rfl .nothing))) (by decide +kernel) (by decide +kernel) (by decide +kernel)
    "Vault.sol" ⟨by decide +kernel, by decide +kernel⟩
  rw [hf] at hnames
  obtain ⟨hfirst, hunits⟩ := Prod.mk.inj (Option.some.inj hnames)
  exact ⟨f, f', hf, hf', himports, hheadings, hpaths, hfirst, hunits⟩

end ContractMigration.Solidity
