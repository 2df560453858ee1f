import Mathlib.Data.List.Basic
import PostgressRs.Lib.TokenParser
import PostgressRs.Sql.Ast
import PostgressRs.Sql.LexerCoverage
import PostgressRs.Sql.StatementParser
import PostgressRs.Sql.StatementRegularity
import PostgressRs.Sql.StatementTermination
import PostgressRs.Sql.Tokenizer
import PostgressRs.Sql.TokenStream

/-!
What the parser leaves of a text.  It ends where the statement that it parses ends, and
it does not look at the tokens behind it.
-/

namespace PostgressRs.Sql.LeftoverTokens

open PostgressRs.Lib.TokenParser
open PostgressRs.Sql.Ast
open PostgressRs.Sql.LexerCoverage
open PostgressRs.Sql.StatementParser
open PostgressRs.Sql.StatementRegularity
open PostgressRs.Sql.StatementTermination
open PostgressRs.Sql.Tokenizer
open PostgressRs.Sql.TokenStream

section Eof

theorem punctuation_ne_eof (char : Char) : punctuation char ≠ some .eof := by
  unfold punctuation
  split <;> simp

theorem wordToken_ne_eof (s : String) : wordToken s ≠ .eof := by
  unfold wordToken
  split <;> simp

/-- A choice between two tokens none of which is the end. -/
theorem ite_ne_eof {p : Prop} [Decidable p] {a b : Option Token × List Char}
    (ha : a.1 ≠ some .eof) (hb : b.1 ≠ some .eof) : (if p then a else b).1 ≠ some .eof := by
  split
  · exact ha
  · exact hb

theorem scan_ne_eof (char : Char) (rest : List Char) : (scan char rest).1 ≠ some .eof := by
  unfold scan
  refine ite_ne_eof nofun (ite_ne_eof (punctuation_ne_eof char) (ite_ne_eof ?_ (ite_ne_eof ?_
    (ite_ne_eof ?_ (ite_ne_eof ?_ (ite_ne_eof nofun (ite_ne_eof nofun (ite_ne_eof nofun
      (ite_ne_eof ?_ nofun)))))))))
  · split <;> nofun
  · split <;> nofun
  · split <;> nofun
  · split <;> nofun
  · exact fun heq => wordToken_ne_eof _ (Option.some.inj heq)

/-- The end is the last token and no other. -/
theorem tokenizeFrom_eof {fuel : Nat} {text : List Char} (h : text.length ≤ fuel) :
    ∃ tokens, tokenizeFrom fuel text = tokens ++ [.eof] ∧ .eof ∉ tokens := by
  induction fuel generalizing text with
  | zero =>
      rw [List.length_eq_zero_iff.mp (Nat.le_zero.mp h)]
      exact ⟨[], rfl, List.not_mem_nil⟩
  | succ fuel ih =>
      cases text with
      | nil => exact ⟨[], rfl, List.not_mem_nil⟩
      | cons char rest =>
          rw [List.length_cons] at h
          obtain ⟨tokens, htokens, heof⟩ :=
            ih (Nat.le_trans (scan_covers char rest).shorter (Nat.le_of_succ_le_succ h))
          refine ⟨(scan char rest).1.toList ++ tokens, ?_, ?_⟩
          · rw [List.append_assoc, ← htokens]
            rfl
          · rw [List.mem_append, not_or]
            refine ⟨?_, heof⟩
            intro hmem
            exact scan_ne_eof char rest (Option.mem_toList.mp hmem)

theorem tokenize_eof (sql : String) :
    ∃ tokens, tokenize sql = tokens ++ [.eof] ∧ .eof ∉ tokens :=
  tokenizeFrom_eof (Nat.le_refl _)

/-- Only semicolons, and the end. -/
def OnlySemicolons (rest : List Token) : Prop := ∀ t ∈ rest, t = .semicolon ∨ t = .eof

theorem OnlySemicolons.eq_replicate {tokens u rest : List Token} (hrest : OnlySemicolons rest)
    (heof : .eof ∉ tokens) (h : tokens ++ [.eof] = u ++ rest) (hne : rest ≠ []) :
    ∃ k, rest = List.replicate k .semicolon ++ [.eof] := by
  obtain ⟨r, t, rfl⟩ := (List.eq_nil_or_concat rest).resolve_left hne
  rw [List.concat_eq_append] at hrest h ⊢
  rw [← List.append_assoc] at h
  obtain ⟨htokens, ht⟩ := List.append_inj' h rfl
  refine ⟨r.length, ?_⟩
  rw [← ht]
  congr 1
  refine List.eq_replicate_iff.mpr ⟨rfl, fun s hs => ?_⟩
  rcases hrest s (List.mem_append_left _ hs) with hsemicolon | hend
  · exact hsemicolon
  · rw [htokens] at heof
    exact absurd (List.mem_append_right u (hend ▸ hs)) heof

theorem OnlySemicolons.of_suffix {k : Nat} {rest : List Token}
    (h : rest <:+ List.replicate k .semicolon ++ [.eof]) : OnlySemicolons rest := by
  intro t ht
  rcases List.mem_append.mp (h.subset ht) with hmem | hmem
  · exact .inl (List.eq_of_mem_replicate hmem)
  · exact .inr (List.mem_singleton.mp hmem)

end Eof

section Leftovers

/-- The parser takes all of these tokens, if nothing follows them, for one statement. -/
def WholeStatement (tokens : List Token) : Prop :=
  ∃ fuel statement rest, parseStatement fuel (tokens ++ [.eof]) = .ok statement rest ∧
    ∀ t ∈ rest, t = .eof

def leftover {α : Type} : Outcome Token ParseError α → Option (List Token)
  | .ok _ rest => some rest
  | _ => none

theorem exists_of_leftover {α : Type} {outcome : Outcome Token ParseError α} {rest : List Token}
    (h : leftover outcome = some rest) : ∃ a, outcome = .ok a rest := by
  cases outcome with
  | ok a rest' =>
      cases h
      exact ⟨a, rfl⟩
  | error e => cases h
  | unfinished => cases h

end Leftovers

end PostgressRs.Sql.LeftoverTokens
