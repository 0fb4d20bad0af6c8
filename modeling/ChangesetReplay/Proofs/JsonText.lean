import ChangesetReplay.Json.Reader
import ChangesetReplay.Json.Printer
import ChangesetReplay.Proofs.NumeralText

/-! # JSON written and read back

Whatever the spacing, the text written for a well-formed value is read as that value. The text is
cut into the tokens of the value, which is stated with the text that comes after it, since a word
ends only where something else begins. The tokens put the value together again. -/

namespace ChangesetReplay

namespace Json

theorem hexValue?_hexDigit {n : Nat} (h : n < 16) : hexValue? (hexDigit n) = some n := by
  have hall : ∀ m : Fin 16, hexValue? (hexDigit m) = some m.val := by decide
  exact hall ⟨n, h⟩

/-- A character is written with a short escape, as a unit, or as itself. -/
theorem escapeChar_cases (c : Char) :
    (∃ e, escapeChar c = ['\\', e] ∧ escaped? e = some c ∧ e ≠ 'u') ∨
    (escapeChar c = ['\\', 'u', '0', '0', hexDigit (c.toNat / 16), hexDigit (c.toNat % 16)] ∧
      c.toNat < 0x20) ∨
    (escapeChar c = [c] ∧ c ≠ '"' ∧ c ≠ '\\' ∧ 0x20 ≤ c.toNat) := by
  by_cases hquote : c = '"'
  · exact .inl ⟨'"', by simp [escapeChar, hquote], by simp [escaped?, hquote], by decide⟩
  by_cases hslash : c = '\\'
  · exact .inl ⟨'\\', by simp [escapeChar, hslash], by simp [escaped?, hslash], by decide⟩
  by_cases hb : c = '\x08'
  · exact .inl ⟨'b', by simp [escapeChar, hb], by simp [escaped?, hb], by decide⟩
  by_cases hf : c = '\x0c'
  · exact .inl ⟨'f', by simp [escapeChar, hf], by simp [escaped?, hf], by decide⟩
  by_cases hn : c = '\n'
  · exact .inl ⟨'n', by simp [escapeChar, hn], by simp [escaped?, hn], by decide⟩
  by_cases hr : c = '\r'
  · exact .inl ⟨'r', by simp [escapeChar, hr], by simp [escaped?, hr], by decide⟩
  by_cases ht : c = '\t'
  · exact .inl ⟨'t', by simp [escapeChar, ht], by simp [escaped?, ht], by decide⟩
  by_cases hlow : c.toNat < 0x20
  · exact .inr (.inl ⟨by simp [escapeChar, hquote, hslash, hb, hf, hn, hr, ht, hlow], hlow⟩)
  · exact .inr (.inr ⟨by simp [escapeChar, hquote, hslash, hb, hf, hn, hr, ht, hlow], hquote,
      hslash, by omega⟩)

/-- An escaped character is read as that character, whatever follows. -/
theorem unescape?_escapeChar (c : Char) (rest : List Char) :
    unescape? (escapeChar c ++ rest) = (unescape? rest).map (c :: ·) := by
  rcases escapeChar_cases c with ⟨e, hc, he, hu⟩ | ⟨hc, hlow⟩ | ⟨hc, -, hslash, -⟩
  · simp [hc, unescape?, he, hu]
  · have hhigh := hexValue?_hexDigit (n := c.toNat / 16) (by omega)
    have hdigit := hexValue?_hexDigit (n := c.toNat % 16) (by omega)
    have hunit : unit? '0' '0' (hexDigit (c.toNat / 16)) (hexDigit (c.toNat % 16)) =
        some c.toNat := by
      have hzero : hexValue? '0' = some 0 := rfl
      have hsum : c.toNat / 16 * 16 + c.toNat % 16 = c.toNat := by omega
      simp [unit?, hzero, hhigh, hdigit, hsum]
    have hplain : isHighSurrogate c.toNat = false ∧ isLowSurrogate c.toNat = false := by
      constructor
      · simp [isHighSurrogate]; omega
      · simp [isLowSurrogate]; omega
    simp [hc, unescape?, hunit, hplain, Char.ofNat_toNat]
  · simp [hc, unescape?, hslash]

theorem unescape?_escape (cs : List Char) : unescape? (escape cs) = some cs := by
  induction cs with
  | nil => rfl
  | cons c cs ih =>
    rw [escape, List.flatMap_cons, unescape?_escapeChar]
    exact congrArg (Option.map (c :: ·)) ih

/-- From between two tokens, the text is cut into these tokens. -/
def Reads (cs : List Char) (ts : List Token) : Prop :=
  ∀ found, cs.foldlM Scanner.step? ⟨found, .between⟩ = some ⟨ts.reverse ++ found, .between⟩

def Apart (cs : List Char) : Prop := ∃ c rest, cs = c :: rest ∧ isWordChar c = false

theorem foldlM_escapeChar (c : Char) (found : List Token) (read : List Char) :
    (escapeChar c).foldlM Scanner.step? ⟨found, .string read⟩ =
      some ⟨found, .string ((escapeChar c).reverse ++ read)⟩ := by
  rcases escapeChar_cases c with ⟨e, hc, he, hu⟩ | ⟨hc, hlow⟩ | ⟨hc, hquote, hslash, hhigh⟩
  · simp [hc, Scanner.step?, he, hu]
  · have hhigh := hexValue?_hexDigit (n := c.toNat / 16) (by omega)
    have hdigit := hexValue?_hexDigit (n := c.toNat % 16) (by omega)
    have hzero : hexValue? '0' = some 0 := rfl
    simp [hc, Scanner.step?, hzero, hhigh, hdigit]
  · have hcontrol : ¬c.toNat < 0x20 := by omega
    simp [hc, Scanner.step?, hquote, hslash, hcontrol]

theorem foldlM_escape (cs : List Char) (found : List Token) (read : List Char) :
    (escape cs).foldlM Scanner.step? ⟨found, .string read⟩ =
      some ⟨found, .string ((escape cs).reverse ++ read)⟩ := by
  induction cs generalizing read with
  | nil => rfl
  | cons c cs ih =>
    have hcons : escape (c :: cs) = escapeChar c ++ escape cs := List.flatMap_cons
    rw [hcons, List.foldlM_append, foldlM_escapeChar]
    simpa using ih ((escapeChar c).reverse ++ read)

theorem foldlM_word {w : List Char} (hw : w.all isWordChar = true) (found : List Token)
    (read : List Char) :
    w.foldlM Scanner.step? ⟨found, .word read⟩ = some ⟨found, .word (w.reverse ++ read)⟩ := by
  induction w generalizing read with
  | nil => rfl
  | cons c w ih =>
    obtain ⟨hc, hw⟩ : isWordChar c = true ∧ w.all isWordChar = true := by simpa using hw
    simpa [Scanner.step?, hc] using ih hw (c :: read)

/-- The first character of a word begins nothing else. -/
theorem isWordChar_begins {c : Char} (h : isWordChar c = true) : isSpace c = false ∧ c ≠ '"' := by
  constructor
  · refine Bool.eq_false_iff.mpr fun hspace => ?_
    simp only [isSpace, decide_eq_true_eq] at hspace
    rcases hspace with rfl | rfl | rfl | rfl <;> exact absurd h (by decide)
  · rintro rfl
    exact absurd h (by decide)

/-- Punctuation begins nothing else. -/
theorem ofPunctuation?_begins {c : Char} {t : Token} (h : Token.ofPunctuation? c = some t) :
    isSpace c = false ∧ c ≠ '"' ∧ isWordChar c = false := by
  have hone : c = '[' ∨ c = ']' ∨ c = '\x7b' ∨ c = '\x7d' ∨ c = ',' ∨ c = ':' := by
    simp only [Token.ofPunctuation?] at h
    grind
  rcases hone with rfl | rfl | rfl | rfl | rfl | rfl <;> exact ⟨rfl, by decide, rfl⟩

namespace Reads
variable {cs : List Char} {ts : List Token}

theorem nil : Reads [] [] := fun _ => rfl

theorem blank {c : Char} (hc : isSpace c = true) (h : Reads cs ts) : Reads (c :: cs) ts := by
  intro found
  simpa [Scanner.step?, Scanner.begin?, hc] using h found

theorem blanks {bs : List Char} (hbs : ∀ c ∈ bs, isSpace c = true) (h : Reads cs ts) :
    Reads (bs ++ cs) ts := by
  induction bs with
  | nil => exact h
  | cons c bs ih =>
    exact blank (hbs c (List.mem_cons_self ..)) (ih fun d hd => hbs d (List.mem_cons_of_mem _ hd))

theorem punctuation {c : Char} {t : Token} (ht : Token.ofPunctuation? c = some t)
    (h : Reads cs ts) : Reads (c :: cs) (t :: ts) := by
  intro found
  obtain ⟨hspace, hquote, hword⟩ := ofPunctuation?_begins ht
  simpa [Scanner.step?, Scanner.begin?, hspace, hquote, hword, ht] using h (t :: found)

theorem quoted (s : List Char) (h : Reads cs ts) :
    Reads (quote (escape s) ++ cs) (.string (escape s) :: ts) := by
  intro found
  have hopen : Scanner.step? ⟨found, .between⟩ '"' = some ⟨found, .string []⟩ := rfl
  have hclose : Scanner.step? ⟨found, .string (escape s).reverse⟩ '"' =
      some ⟨.string (escape s) :: found, .between⟩ := by simp [Scanner.step?]
  have hrest := h (.string (escape s) :: found)
  simp [quote, List.foldlM_append, hopen, foldlM_escape, hclose, hrest]

/-- A word goes on until something else comes. -/
theorem word {w : List Char} {t : Token} (hne : w ≠ []) (hw : w.all isWordChar = true)
    (ht : Token.ofWord? w = some t) (hcs : Apart cs) (h : Reads cs ts) :
    Reads (w ++ cs) (t :: ts) := by
  intro found
  obtain ⟨c, rest, rfl, hc⟩ := hcs
  cases w with
  | nil => exact absurd rfl hne
  | cons d w =>
    obtain ⟨hd, hw⟩ : isWordChar d = true ∧ w.all isWordChar = true := by simpa using hw
    have hbegin : Scanner.step? ⟨found, .between⟩ d = some ⟨found, .word [d]⟩ := by
      obtain ⟨hspace, hquote⟩ := isWordChar_begins hd
      simp [Scanner.step?, Scanner.begin?, hspace, hquote, hd]
    have hword := foldlM_word hw found [d]
    have hend : Scanner.step? ⟨found, .word (w.reverse ++ [d])⟩ c =
        Scanner.step? ⟨t :: found, .between⟩ c := by
      simp [Scanner.step?, hc, ht]
    have hrest := h (t :: found)
    rw [List.foldlM_cons] at hrest
    simpa [List.foldlM_append, hbegin, hword, hend] using hrest

end Reads

/-- Strings and names are written with the escapes they need and no others, and numbers have
well-formed numerals. -/
inductive WellFormed : Json → Prop where
  | null : WellFormed .null
  | bool (b : Bool) : WellFormed (.bool b)
  | number {n : Numeral} (h : n.WellFormed) : WellFormed (.number n)
  | string (s : List Char) : WellFormed (.string (escape s))
  | array {items : List Json} (h : ∀ j ∈ items, WellFormed j) : WellFormed (.array items)
  | object {members : List (List Char × Json)} (names : ∀ m ∈ members, ∃ s, m.1 = escape s)
      (h : ∀ m ∈ members, WellFormed m.2) : WellFormed (.object members)

mutual

def tokens : Json → List Token
  | .null => [.null]
  | .bool b => [.bool b]
  | .number n => [.number n]
  | .string raw => [.string raw]
  | .array [] => [.openArray, .closeArray]
  | .array (j :: js) => .openArray :: (tokens j ++ (itemTokens js ++ [.closeArray]))
  | .object [] => [.openObject, .closeObject]
  | .object ((name, j) :: ms) =>
    .openObject :: .string name :: .colon :: (tokens j ++ (memberTokens ms ++ [.closeObject]))

def itemTokens : List Json → List Token
  | [] => []
  | j :: js => .comma :: (tokens j ++ itemTokens js)

def memberTokens : List (List Char × Json) → List Token
  | [] => []
  | (name, j) :: ms => .comma :: .string name :: .colon :: (tokens j ++ memberTokens ms)

end

structure Spacing.Blank (sp : Spacing) : Prop where
  line : ∀ depth, ∀ c ∈ sp.line depth, isSpace c = true
  afterColon : ∀ c ∈ sp.afterColon, isSpace c = true

theorem Spacing.blank_tight : Spacing.tight.Blank := ⟨by simp [tight], by simp [tight]⟩

theorem Spacing.blank_indented : Spacing.indented.Blank where
  line depth c hc := by
    rcases List.mem_cons.mp hc with rfl | hc
    · rfl
    · exact List.eq_of_mem_replicate hc ▸ rfl
  afterColon c hc := List.mem_singleton.mp hc ▸ rfl

theorem isWordChar_of_isSpace {c : Char} (h : isSpace c = true) : isWordChar c = false := by
  refine Bool.eq_false_iff.mpr fun hword => ?_
  have hnone := (isWordChar_begins hword).1
  exact Bool.false_ne_true (hnone.symm.trans h)

theorem Apart.blanks {bs cs : List Char} (hbs : ∀ c ∈ bs, isSpace c = true) (h : Apart cs) :
    Apart (bs ++ cs) := by
  cases bs with
  | nil => exact h
  | cons c bs => exact ⟨c, bs ++ cs, rfl, isWordChar_of_isSpace (hbs c (List.mem_cons_self ..))⟩

theorem Apart.of_punctuation {c : Char} {t : Token} {cs : List Char}
    (h : Token.ofPunctuation? c = some t) : Apart (c :: cs) :=
  ⟨c, cs, rfl, (ofPunctuation?_begins h).2.2⟩

theorem apart_renderItems {sp : Spacing} {depth : Nat} {js : List Json} {cs : List Char}
    (h : Apart cs) : Apart (renderItems sp depth js ++ cs) := by
  cases js with
  | nil => simpa [renderItems] using h
  | cons j js => simpa [renderItems] using Apart.of_punctuation (c := ',') rfl

theorem apart_renderMembers {sp : Spacing} {depth : Nat} {ms : List (List Char × Json)}
    {cs : List Char} (h : Apart cs) : Apart (renderMembers sp depth ms ++ cs) := by
  cases ms with
  | nil => simpa [renderMembers] using h
  | cons m ms => simpa [renderMembers] using Apart.of_punctuation (c := ',') rfl

/-- A numeral is a single word. -/
theorem isWordChar_text {n : Numeral} (h : n.WellFormed) (plus : Bool) :
    (n.text plus).all isWordChar = true := by
  have hdigits : ∀ ds : List Char, (∀ c ∈ ds, c.isDigit = true) → ds.all isWordChar = true := by
    intro ds hds
    refine List.all_eq_true.mpr fun c hc => ?_
    simp [isWordChar, Char.isAlphanum, hds c hc]
  have hsign : (if n.negative then ['-'] else []).all isWordChar = true := by
    split <;> rfl
  have hfraction : (Numeral.fractionPart n.fraction).all isWordChar = true := by
    unfold Numeral.fractionPart
    split
    · rfl
    · exact hdigits n.fraction h.fraction
  have hexponent : (Numeral.exponentPart plus n.exponent).all isWordChar = true := by
    cases n.exponent with
    | none => rfl
    | some e =>
      have hmagnitude := hdigits _ (Numeral.isDigits_toDigits e.natAbs).digits
      have hmark : (if e < 0 then ['-'] else if plus then ['+'] else []).all isWordChar = true := by
        split
        · rfl
        · split <;> rfl
      show (Numeral.exponentText plus e).all isWordChar = true
      rw [Numeral.exponentText, List.all_append, hmark, hmagnitude]
      rfl
  rw [Numeral.text_eq, List.all_append, List.all_append, List.all_append, hsign,
    hdigits n.whole h.whole.digits, hfraction, hexponent]
  rfl

theorem text_ne_nil {n : Numeral} (h : n.WellFormed) (plus : Bool) : n.text plus ≠ [] := by
  rw [Numeral.text_eq]
  simp [h.whole.nonempty]

theorem ofWord?_text {n : Numeral} (h : n.WellFormed) (plus : Bool) :
    Token.ofWord? (n.text plus) = some (.number n) := by
  have hread := Numeral.ofText?_text h plus
  have hne : ∀ w, Numeral.ofText? w = none → n.text plus ≠ w := fun w hw he => by
    rw [← he, hread] at hw
    exact absurd hw (by simp)
  simp [Token.ofWord?, hread, hne _ (by decide : Numeral.ofText? ['n', 'u', 'l', 'l'] = none),
    hne _ (by decide : Numeral.ofText? ['t', 'r', 'u', 'e'] = none),
    hne _ (by decide : Numeral.ofText? ['f', 'a', 'l', 's', 'e'] = none)]

section Rendering
variable {sp : Spacing} {cs : List Char} {ts : List Token}

/-- A name and its value. -/
theorem Reads.named {s : List Char} (hsp : sp.Blank) (h : Reads cs ts) :
    Reads (quote (escape s) ++ ':' :: (sp.afterColon ++ cs)) (.string (escape s) :: .colon :: ts) :=
  .quoted s (.punctuation rfl (.blanks hsp.afterColon h))

mutual

/-- The text of a value is cut into the tokens of the value. -/
theorem reads_render {cs : List Char} {ts : List Token} (hsp : sp.Blank) (depth : Nat) (j : Json)
    (hj : j.WellFormed) (hcs : Apart cs) (h : Reads cs ts) :
    Reads (render sp depth j ++ cs) (tokens j ++ ts) := by
  match j, hj with
  | .null, _ => exact .word (w := ['n', 'u', 'l', 'l']) (by simp) rfl rfl hcs h
  | .bool true, _ => exact .word (w := ['t', 'r', 'u', 'e']) (by simp) rfl rfl hcs h
  | .bool false, _ => exact .word (w := ['f', 'a', 'l', 's', 'e']) (by simp) rfl rfl hcs h
  | .number n, .number hn =>
    exact .word (text_ne_nil hn true) (isWordChar_text hn true) (ofWord?_text hn true) hcs h
  | .string _, .string s => exact .quoted s h
  | .array [], _ =>
    exact .punctuation rfl (.punctuation rfl h)
  | .array (j :: js), .array hjs =>
    have hend : Reads (sp.line depth ++ ']' :: cs) (.closeArray :: ts) :=
      .blanks (hsp.line depth) (.punctuation rfl h)
    have hapart : Apart (sp.line depth ++ ']' :: cs) :=
      .blanks (hsp.line depth) (.of_punctuation rfl)
    have hitems := reads_renderItems hsp (depth + 1) js
      (fun i hi => hjs i (List.mem_cons_of_mem _ hi)) hapart hend
    have hitem := reads_render hsp (depth + 1) j (hjs j (List.mem_cons_self ..))
      (apart_renderItems hapart) hitems
    simpa [render, tokens] using Reads.punctuation (c := '[') rfl
      (.blanks (hsp.line (depth + 1)) hitem)
  | .object [], _ =>
    exact .punctuation rfl (.punctuation rfl h)
  | .object ((name, j) :: ms), .object names hms =>
    have hend : Reads (sp.line depth ++ '\x7d' :: cs) (.closeObject :: ts) :=
      .blanks (hsp.line depth) (.punctuation rfl h)
    have hapart : Apart (sp.line depth ++ '\x7d' :: cs) :=
      .blanks (hsp.line depth) (.of_punctuation rfl)
    have hmembers := reads_renderMembers hsp (depth + 1) ms
      (fun m hm => names m (List.mem_cons_of_mem _ hm))
      (fun m hm => hms m (List.mem_cons_of_mem _ hm)) hapart hend
    have hvalue := reads_render hsp (depth + 1) j (hms _ (List.mem_cons_self ..))
      (apart_renderMembers hapart) hmembers
    obtain ⟨s, rfl⟩ : ∃ s, name = escape s := names _ (List.mem_cons_self ..)
    simpa [render, tokens] using Reads.punctuation (c := '\x7b') rfl
      (.blanks (hsp.line (depth + 1)) (.named hsp hvalue))

theorem reads_renderItems {cs : List Char} {ts : List Token} (hsp : sp.Blank) (depth : Nat)
    (js : List Json) (hjs : ∀ j ∈ js, j.WellFormed) (hcs : Apart cs) (h : Reads cs ts) :
    Reads (renderItems sp depth js ++ cs) (itemTokens js ++ ts) := by
  match js with
  | [] => exact h
  | j :: js =>
    have hitems := reads_renderItems hsp depth js
      (fun i hi => hjs i (List.mem_cons_of_mem _ hi)) hcs h
    have hitem := reads_render hsp depth j (hjs j (List.mem_cons_self ..))
      (apart_renderItems hcs) hitems
    simpa [renderItems, itemTokens] using Reads.punctuation (c := ',') rfl
      (.blanks (hsp.line depth) hitem)

theorem reads_renderMembers {cs : List Char} {ts : List Token} (hsp : sp.Blank) (depth : Nat)
    (ms : List (List Char × Json)) (names : ∀ m ∈ ms, ∃ s, m.1 = escape s)
    (hms : ∀ m ∈ ms, m.2.WellFormed) (hcs : Apart cs) (h : Reads cs ts) :
    Reads (renderMembers sp depth ms ++ cs) (memberTokens ms ++ ts) := by
  match ms with
  | [] => exact h
  | (name, j) :: ms =>
    have hmembers := reads_renderMembers hsp depth ms
      (fun m hm => names m (List.mem_cons_of_mem _ hm))
      (fun m hm => hms m (List.mem_cons_of_mem _ hm)) hcs h
    have hvalue := reads_render hsp depth j (hms _ (List.mem_cons_self ..))
      (apart_renderMembers hcs) hmembers
    obtain ⟨s, rfl⟩ : ∃ s, name = escape s := names _ (List.mem_cons_self ..)
    simpa [renderMembers, memberTokens] using Reads.punctuation (c := ',') rfl
      (.blanks (hsp.line depth) (.named hsp hvalue))

end

end Rendering

/-- A blank at the end changes nothing about the tokens. -/
theorem finish?_of_newline {s : Scanner} {found : List Token}
    (h : s.step? '\n' = some ⟨found, .between⟩) : s.finish? = some found.reverse := by
  obtain ⟨found', scan⟩ := s
  have hbegin : ∀ ts, Scanner.begin? ts '\n' = some ⟨ts, .between⟩ := fun _ => rfl
  cases scan with
  | between =>
    have hfound : found' = found := by simpa [Scanner.step?, hbegin] using h
    simp [Scanner.finish?, hfound]
  | word read =>
    have hword : isWordChar '\n' = false := by decide
    simp only [Scanner.step?, hword, Bool.false_eq_true, if_false] at h
    obtain ⟨t, ht, hfound⟩ := Option.bind_eq_some_iff.mp h
    have hfound : t :: found' = found := by simpa [hbegin] using hfound
    simp [Scanner.finish?, ht, ← hfound]
  | string read => exact absurd h (by simp [Scanner.step?])
  | escape read => exact absurd h (by simp [Scanner.step?, escaped?])
  | unit read missing => exact absurd h (by simp [Scanner.step?, hexValue?])

/-- A text is cut into the tokens of its value. -/
theorem tokens?_render {sp : Spacing} (hsp : sp.Blank) {j : Json} (h : j.WellFormed) :
    tokens? (render sp 0 j) = some (tokens j) := by
  have hreads : Reads (render sp 0 j ++ ['\n']) (tokens j ++ []) :=
    reads_render hsp 0 j h ⟨'\n', [], rfl, rfl⟩ (.blank rfl .nil)
  have hall := hreads []
  rw [List.foldlM_append] at hall
  obtain ⟨s, hs, hend⟩ := Option.bind_eq_some_iff.mp hall
  have hstep : s.step? '\n' = some ⟨(tokens j).reverse, .between⟩ := by simpa using hend
  simp [tokens?, Scanner.start, hs, finish?_of_newline hstep]

theorem foldlM_firstItem (j : Json) (frames : List Frame) :
    (tokens j).foldlM Builder.step? ⟨.firstItem, frames⟩ =
      (tokens j).foldlM Builder.step? ⟨.value, frames⟩ := by
  obtain ⟨t, ts, hts, ht⟩ : ∃ t ts, tokens j = t :: ts ∧ t ≠ .closeArray := by
    fun_cases tokens j <;> simp
  have hstep : Builder.step? ⟨.firstItem, frames⟩ t = Builder.step? ⟨.value, frames⟩ t := by
    simp [Builder.step?, ht]
  simp [hts, hstep]

mutual

/-- Where a value is awaited, its tokens put it together. -/
theorem foldlM_tokens (j : Json) (frames : List Frame) :
    (tokens j).foldlM Builder.step? ⟨.value, frames⟩ = some ⟨.after j, frames⟩ := by
  match j with
  | .null => rfl
  | .bool b => rfl
  | .number n => rfl
  | .string raw => rfl
  | .array [] => rfl
  | .array (j :: js) =>
    have hopen : Builder.step? ⟨.value, frames⟩ .openArray =
      some ⟨.firstItem, .items [] :: frames⟩ := rfl
    have hitem := foldlM_tokens j (.items [] :: frames)
    have hitems := foldlM_itemTokens js frames [] j
    simpa [tokens, hopen, foldlM_firstItem, hitem] using hitems
  | .object [] => rfl
  | .object ((name, j) :: ms) =>
    have hopen : Builder.step? ⟨.value, frames⟩ .openObject = some ⟨.firstName, frames⟩ := rfl
    have hname : Builder.step? ⟨.firstName, frames⟩ (.string name) =
      some ⟨.colon [] name, frames⟩ := rfl
    have hcolon : Builder.step? ⟨.colon [] name, frames⟩ .colon =
      some ⟨.value, .members [] name :: frames⟩ := rfl
    have hvalue := foldlM_tokens j (.members [] name :: frames)
    have hmembers := foldlM_memberTokens ms frames [] name j
    simpa [tokens, hopen, hname, hcolon, hvalue] using hmembers

theorem foldlM_itemTokens (js : List Json) (frames : List Frame) (before : List Json) (j : Json) :
    (itemTokens js ++ [Token.closeArray]).foldlM Builder.step? ⟨.after j, .items before :: frames⟩ =
      some ⟨.after (.array (before.reverse ++ j :: js)), frames⟩ := by
  match js with
  | [] =>
    have hclose : Builder.step? ⟨.after j, .items before :: frames⟩ .closeArray =
      some ⟨.after (.array (j :: before).reverse), frames⟩ := rfl
    simp [itemTokens, hclose]
  | i :: js =>
    have hcomma : Builder.step? ⟨.after j, .items before :: frames⟩ .comma =
      some ⟨.value, .items (j :: before) :: frames⟩ := rfl
    have hitem := foldlM_tokens i (.items (j :: before) :: frames)
    have hitems := foldlM_itemTokens js frames (j :: before) i
    simpa [itemTokens, hcomma, hitem] using hitems

theorem foldlM_memberTokens (ms : List (List Char × Json)) (frames : List Frame)
    (before : List (List Char × Json)) (name : List Char) (j : Json) :
    (memberTokens ms ++ [Token.closeObject]).foldlM Builder.step?
        ⟨.after j, .members before name :: frames⟩ =
      some ⟨.after (.object (before.reverse ++ (name, j) :: ms)), frames⟩ := by
  match ms with
  | [] =>
    have hclose : Builder.step? ⟨.after j, .members before name :: frames⟩ .closeObject =
      some ⟨.after (.object ((name, j) :: before).reverse), frames⟩ := rfl
    simp [memberTokens, hclose]
  | (next, i) :: ms =>
    have hcomma : Builder.step? ⟨.after j, .members before name :: frames⟩ .comma =
      some ⟨.name ((name, j) :: before), frames⟩ := rfl
    have hname : Builder.step? ⟨.name ((name, j) :: before), frames⟩ (.string next) =
      some ⟨.colon ((name, j) :: before) next, frames⟩ := rfl
    have hcolon : Builder.step? ⟨.colon ((name, j) :: before) next, frames⟩ .colon =
      some ⟨.value, .members ((name, j) :: before) next :: frames⟩ := rfl
    have hvalue := foldlM_tokens i (.members ((name, j) :: before) next :: frames)
    have hmembers := foldlM_memberTokens ms frames ((name, j) :: before) next i
    simpa [memberTokens, hcomma, hname, hcolon, hvalue] using hmembers

end

theorem ofTokens?_tokens (j : Json) : ofTokens? (tokens j) = some j := by
  simp [ofTokens?, Builder.start, foldlM_tokens, Builder.finish?]

/-- A well-formed value can be read from its text, whatever the spacing. -/
theorem ofText?_render {sp : Spacing} (hsp : sp.Blank) {j : Json} (h : j.WellFormed) :
    ofText? (String.ofList (render sp 0 j)) = some j := by
  simp [ofText?, tokens?_render hsp h, ofTokens?_tokens]

theorem ofText?_compact {j : Json} (h : j.WellFormed) : ofText? j.compact = some j :=
  ofText?_render Spacing.blank_tight h

theorem ofText?_pretty {j : Json} (h : j.WellFormed) : ofText? j.pretty = some j :=
  ofText?_render Spacing.blank_indented h

end Json
end ChangesetReplay
