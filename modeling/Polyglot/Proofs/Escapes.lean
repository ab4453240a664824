import Mathlib.Data.List.Basic
import Polyglot.Text.Escape

/-! Escapes between double quotes can be taken back, and they tell texts apart. -/
namespace Polyglot.Text

/-- The escape of a character, with dollar signs escaped as well in a template. -/
def escapeIn (template : Bool) (c : Char) : List Char :=
  if template then escapeTemplateChar c else escapeChar c

/-- The character that a backslash in front of this one makes. -/
def unescape? (template : Bool) : Char → Option Char
  | '\\' => some '\\'
  | '"' => some '"'
  | 'n' => some '\n'
  | 'r' => some '\r'
  | 't' => some '\t'
  | '$' => if template then some '$' else none
  | _ => none

/-- A character has a code behind a backslash, or it stands for itself. -/
theorem escapeIn_cases (template : Bool) (c : Char) :
    (∃ code, escapeIn template c = ['\\', code] ∧ unescape? template code = some c) ∨
      escapeIn template c = [c] ∧ c ∉ ['\\', '"', '\n', '\r', '\t'] ∧
        (template = true → c ≠ '$') := by
  by_cases hd : template = true ∧ c = '$'
  · obtain ⟨rfl, rfl⟩ := hd
    exact .inl ⟨'$', rfl, rfl⟩
  have he : escapeIn template c = escapeChar c := by
    unfold escapeIn escapeTemplateChar
    split_ifs with ht hc
    · exact absurd ⟨ht, hc⟩ hd
    · rfl
    · rfl
  rw [he]
  unfold escapeChar
  split
  · exact .inl ⟨'\\', rfl, rfl⟩
  · exact .inl ⟨'"', rfl, rfl⟩
  · exact .inl ⟨'n', rfl, rfl⟩
  · exact .inl ⟨'r', rfl, rfl⟩
  · exact .inl ⟨'t', rfl, rfl⟩
  · next hb hq hn hr ht =>
    refine .inr ⟨rfl, ?_, fun ht hc => hd ⟨ht, hc⟩⟩
    simp only [List.mem_cons, List.not_mem_nil, or_false, not_or]
    exact ⟨hb, hq, hn, hr, ht⟩

variable {template : Bool}

/-- No escape is the beginning of another one. -/
theorem escapeIn_append_inj {c d : Char} {rest more : List Char}
    (h : escapeIn template c ++ rest = escapeIn template d ++ more) : c = d ∧ rest = more := by
  obtain ⟨code, hc, hu⟩ | ⟨hc, hn, -⟩ := escapeIn_cases template c
  · obtain ⟨other, hd, hv⟩ | ⟨hd, hm, -⟩ := escapeIn_cases template d
    · simp only [hc, hd, List.cons_append, List.nil_append, List.cons.injEq, true_and] at h
      obtain ⟨rfl, rfl⟩ := h
      exact ⟨Option.some.inj (hu.symm.trans hv), rfl⟩
    · simp only [hc, hd, List.cons_append, List.nil_append, List.cons.injEq] at h
      exact absurd (h.1 ▸ List.mem_cons_self ..) hm
  · obtain ⟨other, hd, hv⟩ | ⟨hd, hm, -⟩ := escapeIn_cases template d
    · simp only [hc, hd, List.cons_append, List.nil_append, List.cons.injEq] at h
      exact absurd (h.1 ▸ List.mem_cons_self ..) hn
    · simpa [hc, hd] using h

/-- No escape begins with a quote. -/
theorem escapeIn_append_ne_quote (c : Char) (rest more : List Char) :
    escapeIn template c ++ rest ≠ '"' :: more := by
  intro h
  obtain ⟨code, hc, -⟩ | ⟨hc, hn, -⟩ := escapeIn_cases template c
  · simp [hc] at h
  · simp only [hc, List.cons_append, List.nil_append, List.cons.injEq] at h
    exact hn (h.1 ▸ List.mem_cons_of_mem _ (List.mem_cons_self ..))

/-- An escaped text ends at the first quote that is not a part of an escape. -/
theorem escaped_quote_inj {first second rest more : List Char}
    (h : first.flatMap (escapeIn template) ++ '"' :: rest =
      second.flatMap (escapeIn template) ++ '"' :: more) : first = second ∧ rest = more := by
  induction first generalizing second with
  | nil =>
    cases second with
    | nil => simpa using h
    | cons d others =>
      rw [List.flatMap_cons, List.append_assoc] at h
      exact absurd h.symm (escapeIn_append_ne_quote d _ _)
  | cons c chars ih =>
    rw [List.flatMap_cons, List.append_assoc] at h
    cases second with
    | nil => exact absurd h (escapeIn_append_ne_quote c _ _)
    | cons d others =>
      rw [List.flatMap_cons, List.append_assoc] at h
      obtain ⟨rfl, he⟩ := escapeIn_append_inj h
      obtain ⟨rfl, rfl⟩ := ih he
      exact ⟨rfl, rfl⟩

/-- A list ends at the first mark that it does not hold itself. -/
theorem cut_inj {stop : Char} {first second rest more : List Char} (hf : stop ∉ first)
    (hs : stop ∉ second) (h : first ++ stop :: rest = second ++ stop :: more) :
    first = second ∧ rest = more := by
  rcases List.append_eq_append_iff.mp h with ⟨gap, rfl, hr⟩ | ⟨gap, rfl, hr⟩
  all_goals
    cases gap with
    | nil => simpa [eq_comm] using hr
    | cons c gap =>
      obtain ⟨rfl, -⟩ := List.cons.inj hr
      simp at hf hs

/-- In an escaped text each quote stands behind a backslash. -/
theorem escaped_ne_bareQuote {c : Char} (hc : c ≠ '\\') (text first rest : List Char) :
    text.flatMap (escapeIn template) ≠ first ++ c :: '"' :: rest := by
  intro h
  induction text generalizing first with
  | nil => simp at h
  | cons d others ih =>
    have hq (rest : List Char) : others.flatMap (escapeIn template) ≠ '"' :: rest := by
      cases others with
      | nil => simp
      | cons e others => exact escapeIn_append_ne_quote e _ _
    rw [List.flatMap_cons] at h
    obtain ⟨code, hd, -⟩ | ⟨hd, -, -⟩ := escapeIn_cases template d
    · rw [hd] at h
      match first with
      | [] => exact hc (List.cons.inj h).1.symm
      | [_] => exact hq _ (List.cons.inj (List.cons.inj h).2).2
      | _ :: _ :: first => exact ih first (List.cons.inj (List.cons.inj h).2).2
    · rw [hd] at h
      match first with
      | [] => exact hq _ (List.cons.inj h).2
      | _ :: first => exact ih first (List.cons.inj h).2

theorem newline_not_mem_escapeIn (c : Char) : '\n' ∉ escapeIn template c := by
  intro h
  obtain ⟨code, he, hu⟩ | ⟨he, hn, -⟩ := escapeIn_cases template c
  · rw [he] at h
    simp only [List.mem_cons, List.not_mem_nil, or_false] at h
    rcases h with hb | rfl
    · exact absurd hb (by decide)
    · cases hu
  · rw [he] at h
    obtain rfl := List.mem_singleton.mp h
    simp at hn

end Polyglot.Text
