import Polyglot.Proofs.Isolation
import Polyglot.Proofs.Search

/-!
# Texts in quotes

A literal is read from its opening quote up to the first quote that is not escaped. A text is written with its quotes
and line ends escaped, but with its backslashes as they are. So it is read back exactly if it has no backslash.
-/
namespace Polyglot

open Session Effect Emit Dialect List

namespace TextLiteral

/-! ### Reading -/

def escape? : Char → Option Char
  | '\\' => some '\\'
  | '"' => some '"'
  | 'n' => some '\n'
  | 'r' => some '\r'
  | 't' => some '\t'
  | _ => none

def before (c : Char) (r : List Char × List Char) : List Char × List Char := (c :: r.1, r.2)

/-- Reads up to the closing quote: what is in quotes, and what comes after them. -/
def scan : List Char → Option (List Char × List Char)
  | [] => none
  | ['\\'] => none
  | '\\' :: c :: cs => (escape? c).bind fun d => (scan cs).map (before d)
  | '"' :: cs => some ([], cs)
  | c :: cs => (scan cs).map (before c)

/-- The text that a literal denotes. Nothing may come after its closing quote. -/
def read (literal : String) : Option String :=
  match literal.toList with
  | '"' :: cs =>
    match scan cs with
    | some (text, []) => some (String.ofList text)
    | _ => none
  | _ => none

variable {c d : Char} {cs rest text : List Char}

theorem scan_escape (h : escape? c = some d) : scan ('\\' :: c :: cs) = (scan cs).map (before d) := by
  rw [scan, h, Option.bind_some]

theorem scan_plain (hquote : c ≠ '"') (hslash : c ≠ '\\') : scan (c :: cs) = (scan cs).map (before c) := by
  rw [scan]
  · exact fun h _ => hslash h
  · exact fun _ _ h _ => hslash h
  · exact hquote

/-- What is written so that each of its elements is read back is read back as a whole, up to the closing quote. -/
theorem scan_flatMap {α : Type} {scan : List Char → Option (List α × List Char)} (hquote : ∀ rest, scan ('"' :: rest) = some ([], rest))
    {w : α → List Char} {as : List α}
    (h : ∀ a ∈ as, ∀ rest, scan (w a ++ rest) = (scan rest).map fun r => (a :: r.1, r.2)) (rest : List Char) :
    scan (as.flatMap w ++ '"' :: rest) = some (as, rest) := by
  induction as with
  | nil => exact hquote rest
  | cons a as ih =>
    obtain ⟨ha, has⟩ := forall_mem_cons.1 h
    rw [flatMap_cons, append_assoc, ha, ih has]
    rfl

theorem scan_quote (rest : List Char) : scan ('"' :: rest) = some ([], rest) := by rw [scan]

theorem read_eq_some_iff {literal s : String} (h : literal.toList = '"' :: cs) :
    read literal = some s ↔ scan cs = some (s.toList, []) := by
  rw [read, h]
  split
  · rename_i hcs
    cases hcs
    split
    · rename_i text hscan
      rw [hscan, Option.some_inj, Option.some_inj, Prod.mk.injEq, ← String.toList_inj, String.toList_ofList]
      simp
    · rename_i hscan
      simp only [reduceCtorEq, false_iff]
      exact hscan s.toList
  · rename_i hne
    exact (hne cs rfl).elim

/-! ### Writing -/

def written (c : Char) : List Char :=
  if c = '"' then ['\\', '"'] else if c = '\n' then ['\\', 'n'] else if c = '\r' then ['\\', 'r']
  else if c = '\t' then ['\\', 't'] else [c]

theorem toList_quotedText (s : String) : (quotedText s).toList = '"' :: (s.toList.flatMap written ++ ['"']) := by
  have hquote : "\"".toList = ['"'] := rfl
  have hn : "\n".toList = ['\n'] := rfl
  have hr : "\r".toList = ['\r'] := rfl
  have ht : "\t".toList = ['\t'] := rfl
  simp only [quotedText, String.toList_append, Text.replaceAll_char hquote, Text.replaceAll_char hn, Text.replaceAll_char hr,
    Text.replaceAll_char ht, flatMap_assoc, hquote, cons_append]
  congr 2
  refine flatMap_congr fun c _ => ?_
  unfold written
  split_ifs <;> simp [*]

/-- A quote is escaped, a letter stands for a line end, and all else is kept. -/
theorem written_cases (c : Char) :
    c = '"' ∨ (∃ e, written c = ['\\', e] ∧ escape? e = some c ∧ e ≠ '"' ∧ e ≠ '\\' ∧ e ≠ c) ∨ (written c = [c] ∧ c ≠ '"') := by
  by_cases hquote : c = '"'
  · exact .inl hquote
  by_cases hn : c = '\n'
  · exact .inr (.inl ⟨'n', by rw [hn]; decide⟩)
  by_cases hr : c = '\r'
  · exact .inr (.inl ⟨'r', by rw [hr]; decide⟩)
  by_cases ht : c = '\t'
  · exact .inr (.inl ⟨'t', by rw [ht]; decide⟩)
  · exact .inr (.inr ⟨by simp [written, hquote, hn, hr, ht], hquote⟩)

theorem scan_written (h : c ≠ '\\') (rest : List Char) : scan (written c ++ rest) = (scan rest).map (before c) := by
  rcases written_cases c with rfl | ⟨e, hw, he, -⟩ | ⟨hw, hc⟩
  · exact scan_escape rfl
  · rw [hw]
    exact scan_escape he
  · rw [hw]
    exact scan_plain hc h

/-- What is read of a backslash and what is written for the next character: a quote closes the literal, a line end becomes two
characters, and all else is taken for an escape. -/
theorem scan_slash_cases {r : List Char × List Char} (h : scan ('\\' :: (written c ++ rest)) = some r) :
    (c = '"' ∧ r = (['\\'], rest)) ∨ (∃ e r', e ≠ c ∧ scan rest = some r' ∧ r = before '\\' (before e r')) ∨
      ∃ d r', escape? c = some d ∧ scan rest = some r' ∧ r = before d r' := by
  rcases written_cases c with rfl | ⟨e, hw, -, hquote, hslash, hne⟩ | ⟨hw, -⟩
  · have hscan : scan ('\\' :: '\\' :: '"' :: rest) = some (['\\'], rest) := by
      rfl
    exact .inl ⟨rfl, Option.some_inj.1 (h.symm.trans hscan)⟩
  · rw [hw, cons_append, singleton_append, scan_escape rfl, scan_plain hquote hslash] at h
    obtain ⟨r', hmap, rfl⟩ := Option.map_eq_some_iff.1 h
    obtain ⟨r'', hscan, rfl⟩ := Option.map_eq_some_iff.1 hmap
    exact .inr (.inl ⟨e, r'', hne, hscan, rfl⟩)
  · rw [hw, singleton_append, scan] at h
    obtain ⟨d, hd, hmap⟩ := Option.bind_eq_some_iff.1 h
    obtain ⟨r', hscan, rfl⟩ := Option.map_eq_some_iff.1 hmap
    exact .inr (.inr ⟨d, r', hd, hscan, rfl⟩)

/-- What is read is no longer than what was written, also after a backslash. -/
theorem length_le_of_scan :
    (∀ r, scan (cs.flatMap written ++ ['"']) = some r → r.1.length ≤ cs.length) ∧
      ∀ r, scan ('\\' :: (cs.flatMap written ++ ['"'])) = some r → r.1.length ≤ cs.length + 1 := by
  induction cs with
  | nil =>
    refine ⟨fun r h => ?_, fun r h => ?_⟩
    · cases h
      exact Nat.le_refl 0
    · cases h
  | cons c cs ih =>
    obtain ⟨ihplain, ihslash⟩ := ih
    rw [flatMap_cons, append_assoc]
    refine ⟨fun r h => ?_, fun r h => ?_⟩
    · by_cases hc : c = '\\'
      · subst hc
        exact ihslash r h
      · rw [scan_written hc] at h
        obtain ⟨r', hscan, rfl⟩ := Option.map_eq_some_iff.1 h
        exact Nat.succ_le_succ (ihplain r' hscan)
    · rcases scan_slash_cases h with ⟨-, rfl⟩ | ⟨e, r', -, hscan, rfl⟩ | ⟨d, r', -, hscan, rfl⟩
      · simp
      · exact Nat.succ_le_succ (Nat.succ_le_succ (ihplain r' hscan))
      · exact Nat.succ_le_succ (Nat.le_succ_of_le (ihplain r' hscan))

/-- A backslash is never read back. -/
theorem scan_slash_ne (cs : List Char) : scan ('\\' :: (cs.flatMap written ++ ['"'])) ≠ some ('\\' :: cs, []) := by
  intro h
  cases cs with
  | nil => cases h
  | cons c cs =>
    rw [flatMap_cons, append_assoc] at h
    rcases scan_slash_cases h with ⟨-, hr⟩ | ⟨e, r', hne, -, hr⟩ | ⟨d, r', hd, hscan, hr⟩
    · simp at hr
    · simp only [before, Prod.mk.injEq, List.cons.injEq] at hr
      exact hne hr.1.2.1.symm
    · -- then the text after a second backslash is read as one that is longer than it
      simp only [before, Prod.mk.injEq, List.cons.injEq] at hr
      obtain ⟨⟨rfl, htext⟩, -⟩ := hr
      have hle := length_le_of_scan.1 r' hscan
      rw [← htext, length_cons] at hle
      omega

theorem not_mem_of_scan (h : scan (cs.flatMap written ++ ['"']) = some (cs, [])) : '\\' ∉ cs := by
  induction cs with
  | nil => exact not_mem_nil
  | cons c cs ih =>
    rw [flatMap_cons, append_assoc] at h
    by_cases hc : c = '\\'
    · subst hc
      exact (scan_slash_ne cs h).elim
    · rw [scan_written hc] at h
      obtain ⟨r, hscan, hr⟩ := Option.map_eq_some_iff.1 h
      simp only [before, Prod.mk.injEq, List.cons.injEq, true_and] at hr
      rw [mem_cons, not_or]
      exact ⟨Ne.symm hc, ih (hscan.trans (congrArg some (Prod.ext hr.1 hr.2)))⟩

theorem read_quotedText_iff (s : String) : read (quotedText s) = some s ↔ '\\' ∉ s.toList := by
  rw [read_eq_some_iff (toList_quotedText s)]
  exact ⟨not_mem_of_scan, fun h => scan_flatMap scan_quote (fun c hc => scan_written fun hslash => h (hslash ▸ hc)) []⟩

/-! ### Go -/

def goWritten (c : Char) : List Char := if c = '\\' then ['\\', '\\'] else written c

theorem toList_goQuote (s : String) : (Go.quote s).toList = '"' :: (s.toList.flatMap goWritten ++ ['"']) := by
  rw [Go.quote, toList_quotedText, Text.replaceAll_char (c := '\\') rfl, flatMap_assoc]
  congr 2
  refine flatMap_congr fun c _ => ?_
  unfold goWritten
  by_cases hc : c = '\\'
  · subst hc
    rfl
  · simp [hc]

theorem scan_goWritten (c : Char) (rest : List Char) : scan (goWritten c ++ rest) = (scan rest).map (before c) := by
  unfold goWritten
  by_cases hc : c = '\\'
  · subst hc
    exact scan_escape rfl
  · rw [if_neg hc]
    exact scan_written hc rest

theorem goWritten_shown (hd : d ∈ goWritten c) : d ≠ '\n' ∧ d ≠ '\r' ∧ d ≠ '\t' := by
  unfold goWritten written at hd
  grind

/-- If the backslashes are doubled before, then every text is read back as it was. -/
theorem read_goQuote (s : String) : read (Go.quote s) = some s :=
  (read_eq_some_iff (toList_goQuote s)).2 (scan_flatMap scan_quote (fun c _ => scan_goWritten c) [])

end TextLiteral

/-! ### Targets -/

/-- The targets that write texts by the common rule, with what they put before and after the literal. -/
def literalTargets : List (Target × String × String) :=
  [(Cpp.target, "std::string\x7b", "\x7d"), (D.target, "", ""), (Dart.target, "", ""), (Julia.target, "", ""),
   (Kotlin.target, "", ""), (Mojo.target, "", ""), (Nim.target, "", ""), (Rust.target, "", ""), (Smt.target, "", ""),
   (Zig.target, "", "")]

variable {n : Node} {s : String} {marked : Bool} {p : Page} (bs : List UInt8)

theorem emit_of_step {step : Visit → Visit} {text : String} (hcurrent : p.session.nodes.getD n.id n = n)
    (hstep : ∀ visit, ∃ p', step visit n p = .ok (some text) p') : ∃ p', Target.emitter step n p = .ok (some text) p' := by
  obtain ⟨visit, hvisit⟩ := emitter_of_current step n
  obtain ⟨p', hp'⟩ := hstep visit
  exact ⟨p', (hvisit p hcurrent).trans (catch_ok hp')⟩

theorem emit_text {t : Target} {before after : String} (ht : (t, before, after) ∈ literalTargets)
    (hn : n.shape = .constant (.str s) marked) (hcurrent : p.session.nodes.getD n.id n = n) :
    ∃ p', t.emit n p = .ok (some (before ++ quotedText s ++ after)) p' := by
  simp only [literalTargets, mem_cons, Prod.mk.injEq, not_mem_nil, or_false] at ht
  rcases ht with ⟨rfl, rfl, rfl⟩ | ⟨rfl, rfl, rfl⟩ | ⟨rfl, rfl, rfl⟩ | ⟨rfl, rfl, rfl⟩ | ⟨rfl, rfl, rfl⟩ | ⟨rfl, rfl, rfl⟩ |
    ⟨rfl, rfl, rfl⟩ | ⟨rfl, rfl, rfl⟩ | ⟨rfl, rfl, rfl⟩ | ⟨rfl, rfl, rfl⟩
  all_goals
    refine emit_of_step hcurrent fun visit => ?_
    simp only [Cpp.step, D.step, Dart.step, Julia.step, Kotlin.step, Mojo.step, Nim.step, Rust.step, Smt.step, Zig.step,
      TypeFirst.step, Offside.colonStep, Offside.step, Dialect.step, Dialect.constant, hn, String.empty_append, String.append_empty]
    exact ⟨_, rfl⟩

/-- In each of these targets every text is written as a literal, and is read back as it was if and only if it has no
backslash; in Go, where backslashes are doubled first, it always is. -/
theorem emitted_text_kept_iff (t : Target) (before after : String) (ht : (t, before, after) ∈ literalTargets) (n : Node)
    (s : String) (marked : Bool) (hn : n.shape = .constant (.str s) marked) (p : Page)
    (hcurrent : p.session.nodes.getD n.id n = n) :
    (∃ p', t.emit n p = .ok (some (before ++ quotedText s ++ after)) p') ∧
      (TextLiteral.read (quotedText s) = some s ↔ '\\' ∉ s.toList) ∧ TextLiteral.read (Go.quote s) = some s :=
  ⟨emit_text ht hn hcurrent, TextLiteral.read_quotedText_iff s, TextLiteral.read_goQuote s⟩

/-- A text with quotes and a line end is kept in C++. -/
theorem greeting_kept :
    let n : Node := ⟨1, some 1, some 0, .constant (.str "say \"hi\"\n") false⟩
    (∃ p', Cpp.target.emit n {} = .ok (some "std::string\x7b\"say \\\"hi\\\"\\n\"\x7d") p') ∧
      TextLiteral.read "\"say \\\"hi\\\"\\n\"" = some "say \"hi\"\n" := by
  intro n
  have hliteral : quotedText "say \"hi\"\n" = "\"say \\\"hi\\\"\\n\"" := by decide
  obtain ⟨hemit, hread, -⟩ := emitted_text_kept_iff Cpp.target _ _ List.mem_cons_self n _ _ rfl {} rfl
  rw [hliteral] at hemit hread
  exact ⟨hemit, hread.2 (by decide)⟩

/-- A backslash hides the closing quote, or makes an escape of the character after it. -/
theorem backslash_not_kept :
    TextLiteral.read (quotedText "\\") = none ∧ TextLiteral.read (quotedText "C:\\new") = some "C:\new" := by
  decide

/-- In Go every text is written on one line and without tabs, up to the first quote that is not escaped, whatever comes
after it, and it is read back as it was. -/
theorem Go.emitted_text_exact (n : Node) (s : String) (marked : Bool) (hn : n.shape = .constant (.str s) marked) (p : Page)
    (hcurrent : p.session.nodes.getD n.id n = n) :
    ∃ body p', Go.target.emit n p = .ok (some (String.ofList ('"' :: (body ++ ['"'])))) p' ∧
      (∀ c ∈ body, c ≠ '\n' ∧ c ≠ '\r' ∧ c ≠ '\t') ∧
      ∀ rest, TextLiteral.scan (body ++ '"' :: rest) = some (s.toList, rest) := by
  obtain ⟨p', hemit⟩ : ∃ p', Go.target.emit n p = .ok (some (Go.quote s)) p' := by
    refine emit_of_step hcurrent fun visit => ?_
    simp only [Go.step, Dialect.step, Dialect.constant, hn]
    exact ⟨_, rfl⟩
  rw [← String.ofList_toList (s := Go.quote s), TextLiteral.toList_goQuote] at hemit
  refine ⟨_, p', hemit, fun c hc => ?_, TextLiteral.scan_flatMap TextLiteral.scan_quote fun c _ => TextLiteral.scan_goWritten c⟩
  obtain ⟨d, -, hd⟩ := mem_flatMap.1 hc
  exact TextLiteral.goWritten_shown hd

theorem Go.path_exact :
    let n : Node := ⟨1, some 1, some 0, .constant (.str "C:\\new\n\"") false⟩
    ∃ body p', Go.target.emit n {} = .ok (some (String.ofList ('"' :: (body ++ ['"'])))) p' ∧
      (∀ c ∈ body, c ≠ '\n' ∧ c ≠ '\r' ∧ c ≠ '\t') ∧
      ∀ rest, TextLiteral.scan (body ++ '"' :: rest) = some ("C:\\new\n\"".toList, rest) :=
  Go.emitted_text_exact _ _ _ rfl {} rfl

/-! ### Bytes -/

namespace ByteLiteral

def hexDigit? (c : Char) : Option Nat :=
  if 48 ≤ c.toNat ∧ c.toNat ≤ 57 then some (c.toNat - 48) else if 97 ≤ c.toNat ∧ c.toNat ≤ 102 then some (c.toNat - 87) else none

/-- What is written for one byte: a pair of digits after `\x`, an escape, or the character itself. -/
def byte? : List Char → Option UInt8
  | [c] => if c = '\\' ∨ c = '"' ∨ 128 ≤ c.toNat then none else some (.ofNat c.toNat)
  | [s, c] => if s = '\\' ∧ (c = '\\' ∨ c = '"') then some (.ofNat c.toNat) else none
  | [s, x, h, l] =>
    if s = '\\' ∧ x = 'x' then (do return .ofNat (16 * (← hexDigit? h) + (← hexDigit? l))) else none
  | _ => none

/-- Reads up to the closing quote: the bytes in quotes, and what comes after them. -/
def scan : List Char → Option (List UInt8 × List Char)
  | [] => none
  | '"' :: cs => some ([], cs)
  | '\\' :: 'x' :: h :: l :: cs => (byte? ['\\', 'x', h, l]).bind fun b => (scan cs).map fun r => (b :: r.1, r.2)
  | '\\' :: c :: cs => (byte? ['\\', c]).bind fun b => (scan cs).map fun r => (b :: r.1, r.2)
  | c :: cs => (byte? [c]).bind fun b => (scan cs).map fun r => (b :: r.1, r.2)

theorem scan_byte {cs : List Char} {b : UInt8} (h : byte? cs = some b) (rest : List Char) :
    scan (cs ++ rest) = (scan rest).map fun r => (b :: r.1, r.2) := by
  have hnone : (none : Option UInt8) ≠ some b := nofun
  rcases cs with _ | ⟨c, _ | ⟨d, _ | ⟨x, _ | ⟨y, _ | ⟨z, cs⟩⟩⟩⟩⟩
  · cases h
  · by_cases hc : c = '\\' ∨ c = '"' ∨ 128 ≤ c.toNat
    · exact absurd ((if_pos hc).symm.trans h) hnone
    · rw [singleton_append, scan, h]
      · rfl
      all_goals grind
  · by_cases hd : c = '\\' ∧ (d = '\\' ∨ d = '"')
    · obtain ⟨rfl, hd⟩ := hd
      rw [cons_append, singleton_append, scan, h]
      · rfl
      · rintro _ _ _ rfl
        simp at hd
    · exact absurd ((if_neg hd).symm.trans h) hnone
  · cases h
  · by_cases hx : c = '\\' ∧ d = 'x'
    · obtain ⟨rfl, rfl⟩ := hx
      rw [cons_append, cons_append, cons_append, singleton_append, scan, h]
      rfl
    · exact absurd ((if_neg hx).symm.trans h) hnone
  · cases h

/-- The bytes of a literal, and what comes after it. -/
def read : List Char → Option (List UInt8 × List Char)
  | 'b' :: '"' :: cs => scan cs
  | _ => none

def literal (bs : List UInt8) : String := "b\"" ++ String.join (bs.map Rust.quotedByte) ++ "\""

theorem toList_literal :
    (literal bs).toList = 'b' :: '"' :: (bs.flatMap (fun b => (Rust.quotedByte b).toList) ++ ['"']) := by
  rw [literal, String.toList_append, String.toList_append, String.toList_join, flatMap_map]
  rfl

theorem byte?_quotedByte (b : UInt8) :
    byte? (Rust.quotedByte b).toList = some b ∧ ∀ c ∈ (Rust.quotedByte b).toList, 0x20 ≤ c.toNat ∧ c.toNat ≤ 0x7e := by
  have hall : ∀ n < 256, byte? (Rust.quotedByte (.ofNat n)).toList = some (.ofNat n) ∧
      (Rust.quotedByte (.ofNat n)).toList.all (fun c => 0x20 ≤ c.toNat ∧ c.toNat ≤ 0x7e) = true := by decide +kernel
  have hb := hall b.toNat b.toNat_lt
  rw [UInt8.ofNat_toNat, all_eq_true] at hb
  exact ⟨hb.1, fun c hc => of_decide_eq_true (hb.2 c hc)⟩

theorem read_literal (rest : List Char) : read ((literal bs).toList ++ rest) = some (bs, rest) := by
  rw [toList_literal, cons_append, cons_append, append_assoc, read]
  exact TextLiteral.scan_flatMap (fun _ => by rw [scan]) (fun b _ => scan_byte (byte?_quotedByte b).1) rest

theorem printable_of_mem_literal {bs : List UInt8} {c : Char} (hc : c ∈ (literal bs).toList) : 0x20 ≤ c.toNat ∧ c.toNat ≤ 0x7e := by
  simp only [toList_literal, mem_cons, mem_append, mem_flatMap, not_mem_nil, or_false] at hc
  rcases hc with rfl | rfl | ⟨b, -, hb⟩ | rfl
  · decide
  · decide
  · exact (byte?_quotedByte b).2 c hb
  · decide

end ByteLiteral

/-- In Rust every sequence of bytes is written in printable characters up to the first quote that is not escaped, whatever
comes after it, and it is read back as it was, so that no two have one literal. -/
theorem Rust.emitted_bytes_exact (n : Node) (bs : List UInt8) (marked : Bool) (hn : n.shape = .constant (.bytes bs) marked)
    (p : Page) (hcurrent : p.session.nodes.getD n.id n = n) :
    (∃ p', Rust.target.emit n p = .ok (some (ByteLiteral.literal bs)) p') ∧
      (∀ c ∈ (ByteLiteral.literal bs).toList, 0x20 ≤ c.toNat ∧ c.toNat ≤ 0x7e) ∧
      (∀ rest, ByteLiteral.read ((ByteLiteral.literal bs).toList ++ rest) = some (bs, rest)) ∧
      ∀ bs', ByteLiteral.literal bs' = ByteLiteral.literal bs → bs' = bs := by
  refine ⟨emit_of_step hcurrent fun visit => ?_, fun c => ByteLiteral.printable_of_mem_literal, ByteLiteral.read_literal bs, ?_⟩
  · simp only [Rust.step, Dialect.step, Dialect.constant, hn]
    exact ⟨_, rfl⟩
  · intro bs' h
    have hread := ByteLiteral.read_literal bs' []
    rw [h, ByteLiteral.read_literal] at hread
    exact (congrArg Prod.fst (Option.some.inj hread)).symm

theorem Rust.quoted_bytes_exact :
    let n : Node := ⟨1, some 1, some 0, .constant (.bytes [34, 92, 0, 120, 255]) false⟩
    (∃ p', Rust.target.emit n {} = .ok (some "b\"\\\"\\\\\\x00x\\xff\"") p') ∧
      ∀ rest, ByteLiteral.read ("b\"\\\"\\\\\\x00x\\xff\"".toList ++ rest) = some ([34, 92, 0, 120, 255], rest) := by
  intro n
  have hliteral : ByteLiteral.literal [34, 92, 0, 120, 255] = "b\"\\\"\\\\\\x00x\\xff\"" := by decide
  obtain ⟨hemit, -, hread, -⟩ := Rust.emitted_bytes_exact n _ _ rfl {} rfl
  rw [hliteral] at hemit hread
  exact ⟨hemit, hread⟩

end Polyglot
