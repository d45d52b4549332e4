import LogicalTable.CommandLine.Arguments

/-! Sentinels on the command line. The text of every sentinel is read back, and as a part of the
argument that names the option it always arrives. As an argument of its own a negative number is taken
for a group of letter options, of which there are none that are digits. -/
namespace LogicalTable

namespace Text

theorem isBlank_of_isDigit {c : Char} (h : c.isDigit = true) : isBlank c = false := by
  simp only [Char.isDigit, Bool.and_eq_true, decide_eq_true_eq, UInt32.le_iff_toNat_le] at h
  change 48 ≤ c.toNat ∧ c.toNat ≤ 57 at h
  simp only [isBlank, Bool.or_eq_false_iff, Bool.and_eq_false_iff, decide_eq_false_iff_not,
    beq_eq_false_iff_ne]
  omega

theorem trimChars_of_not_blank {cs : List Char} (h : ∀ c ∈ cs, isBlank c = false) :
    trimChars cs = cs := by
  have keeps : ∀ ds : List Char, (∀ d ∈ ds, isBlank d = false) → ds.dropWhile isBlank = ds := by
    intro ds hd
    cases ds with
    | nil => rfl
    | cons d ds => rw [List.dropWhile_cons_of_neg (by simp [hd d List.mem_cons_self])]
  rw [trimChars, keeps cs h, keeps cs.reverse fun c hc => h c (List.mem_reverse.1 hc),
    List.reverse_reverse]

theorem exists_toDigits (n : Nat) : ∃ c cs, Nat.toDigits 10 n = c :: cs ∧ c.isDigit = true := by
  cases h : Nat.toDigits 10 n with
  | nil => exact (Nat.toDigits_ne_nil h).elim
  | cons c cs =>
    exact ⟨c, cs, rfl, Nat.isDigit_of_mem_toDigits (b := 10) (n := n) (by decide) (by decide)
      (h ▸ List.mem_cons_self)⟩

theorem toList_decimal (n : Int) :
    (decimal n).toList = (if n < 0 then ['-'] else []) ++ Nat.toDigits 10 n.natAbs := by
  unfold decimal
  split
  · rw [String.toList_append, Nat.toList_repr]
    rfl
  · rw [Nat.toList_repr, List.nil_append]

theorem integer?_decimal (n : Int) : integer? (decimal n).toList = some n := by
  rw [toList_decimal]
  by_cases h : n < 0
  · rw [if_pos h, List.singleton_append, integer?, natural?_toDigits]
    have value : -(n.natAbs : Int) = n := by omega
    exact congrArg some value
  · obtain ⟨c, cs, hc, digit⟩ := exists_toDigits n.natAbs
    have sign : c ≠ '-' := by
      rintro rfl
      exact absurd digit (by decide)
    rw [if_neg h, List.nil_append, integer?, unsigned?_toDigits]
    · have value : (n.natAbs : Int) = n := by omega
      exact congrArg some value
    · intro rest hr
      exact sign (List.cons.inj (hc.symm.trans hr)).1

theorem int64?_decimal (n : Int64) : int64? (decimal n.toInt).toList = some n := by
  have range := And.intro n.le_toInt n.toInt_lt
  rw [int64?, integer?_decimal, Option.bind_some, if_pos (by simpa using range), Int64.ofInt_toInt]

theorem trim_decimal (n : Int) : trim (decimal n) = decimal n := by
  have digits : ∀ c ∈ (decimal n).toList, isBlank c = false := by
    intro c hc
    rw [toList_decimal, List.mem_append] at hc
    rcases hc with sign | digit
    · split at sign
      · rw [List.mem_singleton.1 sign]
        rfl
      · exact (List.not_mem_nil sign).elim
    · exact isBlank_of_isDigit (Nat.isDigit_of_mem_toDigits (by decide) (by decide) digit)
  rw [trim, trimChars_of_not_blank digits, String.ofList_toList]

end Text

namespace Sentinel

theorem ofText?_text (s : Sentinel) : ofText? s.text = .ok s := by
  cases s with
  | min => rfl
  | max => rfl
  | value n =>
    have read := Text.int64?_decimal n
    have notMin : Text.decimal n.toInt ≠ "min" := by
      intro h
      rw [h] at read
      cases read
    have notMax : Text.decimal n.toInt ≠ "max" := by
      intro h
      rw [h] at read
      cases read
    simp only [text, ofText?, Text.trim_decimal, if_neg notMin, if_neg notMax, read]

def isNegative : Sentinel → Bool
  | value n => n < 0
  | _ => false

theorem text_of_negative {s : Sentinel} (h : s.isNegative = true) :
    ∃ c cs, s.text.toList = '-' :: c :: cs ∧ c.isDigit = true := by
  cases s with
  | min => cases h
  | max => cases h
  | value n =>
    obtain ⟨c, cs, hc, digit⟩ := Text.exists_toDigits n.toInt.natAbs
    have below : n.toInt < 0 := Int64.lt_iff_toInt_lt.1 (of_decide_eq_true h)
    refine ⟨c, cs, ?_, digit⟩
    rw [text, Text.toList_decimal, if_pos below, hc, List.singleton_append]

/-- Only negative numbers have a text that starts as an option does. -/
theorem head?_text_of_not_negative {s : Sentinel} (h : ¬ s.isNegative = true) :
    s.text.toList.head? ≠ some '-' := by
  cases s with
  | min => decide
  | max => decide
  | value n =>
    obtain ⟨c, cs, hc, digit⟩ := Text.exists_toDigits n.toInt.natAbs
    have above : ¬ n.toInt < 0 := fun below =>
      h (decide_eq_true (Int64.lt_iff_toInt_lt.2 below))
    rw [text, Text.toList_decimal, if_neg above, List.nil_append, hc, List.head?_cons]
    rintro ⟨⟩
    exact absurd digit (by decide)

end Sentinel

namespace CommandLine

namespace Progress

variable {p : Progress} {scope : Scope} {a : String}

theorem take_of_head? (h : a.toList.head? ≠ some '-') : p.take scope a = p.takeText scope a := by
  unfold take
  split
  · next hc => exact (h (by rw [hc]; rfl)).elim
  · next hc => exact (h (by rw [hc]; rfl)).elim
  · rfl

theorem take_of_dashes {cs : List Char} (h : a.toList = '-' :: '-' :: cs) :
    p.take scope a = p.takeOption scope (splitOption cs).1 (splitOption cs).2 := by
  unfold take
  rw [h]
  rfl

/-- A dash before a digit starts a group of letters, of which the first is no option. -/
theorem take_negative {c : Char} {cs : List Char} (h : a.toList = '-' :: c :: cs)
    (digit : c.isDigit = true) : p.take .arrow a = .error .usage := by
  have noLetter : Scope.arrow.letter? c = none := by
    unfold Scope.letter?
    split
    · exact absurd digit (by decide)
    · exact absurd digit (by decide)
    · next wrong => cases wrong
    · rfl
  unfold take
  split
  · next dashes =>
    cases h.symm.trans dashes
    exact absurd digit (by decide)
  · next letters =>
    cases h.symm.trans letters
    rw [turnOnLetters, noLetter]
  · next other =>
    exact (other c cs h).elim

end Progress

theorem read_arrow_cons {p : Progress} {a : String} (h : a ≠ "--") (rest : List String) :
    read .arrow p (a :: rest) = p.take .arrow a >>= fun q => read .arrow q rest := by
  have noSubcommand : (if p.awaits = true then none else Scope.arrow.subcommand? a) = none := by
    split <;> rfl
  have inside : ¬ (!p.awaits && decide (Scope.arrow = .program) && decide (a = "help")) = true := by
    simp
  rw [read, if_neg inside, noSubcommand]
  dsimp only
  rw [if_neg h]
  cases p.take .arrow a <;> rfl

section Arguments

variable {p : Progress} (file : String) (s : Sentinel) (f : ReportFormat) (unfinished : Bool)

def furtherOptions : List String :=
  "--format" :: f.name :: if unfinished then ["--unfinished"] else []

def filled : Progress := { file := some file, sentinel := some s }

theorem read_furtherOptions (settled : p.settle = .ok (filled file s)) :
    ∃ q, read .arrow p (furtherOptions f unfinished) = .ok (q, none) ∧
      q.settle = .ok { filled file s with format := some f, unfinished } := by
  have option : p.take .arrow "--format" =
      .ok { filled file s with pending := some (.setting .format none) } := by
    change (p.settle >>= fun p => _) = _
    rw [settled]
    rfl
  have plain : f.name.toList.head? ≠ some '-' := by
    cases f <;> decide
  have notMark : f.name ≠ "--" := by
    cases f <;> decide
  have value : Progress.take { filled file s with pending := some (.setting .format none) } .arrow f.name =
      .ok { filled file s with pending := some (.setting .format (some f.name)) } := by
    rw [Progress.take_of_head? plain]
    rfl
  have checked : Progress.settle { filled file s with pending := some (.setting .format (some f.name)) } =
      .ok { filled file s with format := some f } := by
    cases f <;> rfl
  rw [furtherOptions, read_arrow_cons (by decide), option, ok_bind, read_arrow_cons notMark, value,
    ok_bind]
  cases unfinished with
  | false => exact ⟨_, rfl, checked⟩
  | true =>
    have last : Progress.take { filled file s with pending := some (.setting .format (some f.name)) }
        .arrow "--unfinished" = .ok { filled file s with format := some f, unfinished := true } := by
      change (Progress.settle _ >>= fun p => _) = _
      rw [checked]
      rfl
    rw [if_pos rfl, read_arrow_cons (by decide), last]
    exact ⟨_, rfl, rfl⟩

theorem parse_of_refused {args : List String} {e : Refusal} (refused : read .arrow {} args = .error e) :
    parse ("arrow" :: args) = .error e := by
  have opened : read .program {} ("arrow" :: args) = .ok ({}, some (.arrow, args)) := rfl
  rw [parse, opened, ok_bind]
  dsimp only
  rw [refused, error_bind]

theorem parse_of_settled {args : List String} {q : Progress}
    (reads : read .arrow {} args = .ok (q, none))
    (settled : q.settle = .ok { filled file s with format := some f, unfinished }) :
    parse ("arrow" :: args) = .ok ⟨.arrow file (some s) unfinished, f, 0⟩ := by
  have opened : read .program {} ("arrow" :: args) = .ok ({}, some (.arrow, args)) := rfl
  rw [parse, opened, ok_bind]
  dsimp only
  rw [reads, ok_bind]
  dsimp only
  rw [settled, ok_bind]
  rfl

end Arguments

theorem splitOption_joined {name : List Char} (h : '=' ∉ name) (value : List Char) :
    Progress.splitOption (name ++ '=' :: value) =
      (String.ofList name, some (String.ofList value)) := by
  have inside : ∀ c ∈ name, (fun c : Char => decide (c ≠ '=')) c = true := by
    intro c hc
    apply decide_eq_true
    rintro rfl
    exact h hc
  rw [Progress.splitOption, List.takeWhile_append_of_pos inside, List.dropWhile_append_of_pos inside,
    List.takeWhile_cons_of_neg (by decide), List.dropWhile_cons_of_neg (by decide), List.append_nil]

theorem toList_joined (value : String) :
    ("--sentinel=" ++ value).toList = '-' :: '-' :: ("sentinel".toList ++ '=' :: value.toList) := by
  rw [String.toList_append]
  rfl

section File

variable {file : String}

theorem read_file (plain : file.toList.head? ≠ some '-') (rest : List String) :
    read .arrow {} (file :: rest) = read .arrow { pending := some (.file file) } rest := by
  have notMark : file ≠ "--" := by
    rintro rfl
    exact plain rfl
  rw [read_arrow_cons notMark, Progress.take_of_head? plain]
  rfl

variable (present : file ≠ "")
include present

theorem settle_file : Progress.settle { pending := some (.file file) } = .ok { file := some file } := by
  unfold Progress.settle
  exact if_neg present

theorem take_sentinelOption :
    Progress.take { pending := some (.file file) } .arrow "--sentinel" =
      .ok { file := some file, pending := some (.setting .sentinel none) } := by
  change (Progress.settle _ >>= fun p => _) = _
  rw [settle_file present]
  rfl

theorem take_joinedOption (s : Sentinel) :
    Progress.take { pending := some (.file file) } .arrow ("--sentinel=" ++ s.text) =
      .ok (filled file s) := by
  rw [Progress.take_of_dashes (toList_joined s.text), splitOption_joined (by decide)]
  change (Progress.settle _ >>= fun p => _) = _
  rw [settle_file present, ok_bind, String.ofList_toList, Progress.set, Sentinel.ofText?_text]
  rfl

end File

section Value

variable (file : String) (s : Sentinel)

theorem take_text :
    Progress.take { file := some file, pending := some (.setting .sentinel none) } .arrow s.text =
      if s.isNegative then .error .usage
      else .ok { file := some file, pending := some (.setting .sentinel (some s.text)) } := by
  by_cases below : s.isNegative = true
  · obtain ⟨c, cs, text, digit⟩ := Sentinel.text_of_negative below
    rw [Progress.take_negative text digit, if_pos below]
  · rw [Progress.take_of_head? (Sentinel.head?_text_of_not_negative below), if_neg below]
    rfl

theorem settle_text :
    Progress.settle { file := some file, pending := some (.setting .sentinel (some s.text)) } =
      .ok (filled file s) := by
  unfold Progress.settle
  dsimp only
  rw [Progress.set, Sentinel.ofText?_text]
  rfl

theorem text_ne_mark : s.text ≠ "--" := by
  intro h
  have read := s.ofText?_text
  rw [h] at read
  cases read

end Value

/-- A sentinel in an argument of its own is read, with whatever else is asked for, unless it is a negative
number; in one argument with the option every sentinel is read. -/
theorem parse_sentinel {file : String} (present : file ≠ "") (plain : file.toList.head? ≠ some '-')
    (s : Sentinel) (f : ReportFormat) (unfinished : Bool) :
    parse (["arrow", file, "--sentinel", s.text, "--format", f.name] ++
        if unfinished then ["--unfinished"] else []) =
      (if s.isNegative then .error .usage else .ok ⟨.arrow file (some s) unfinished, f, 0⟩) ∧
    parse (["arrow", file, "--sentinel=" ++ s.text, "--format", f.name] ++
        if unfinished then ["--unfinished"] else []) =
      .ok ⟨.arrow file (some s) unfinished, f, 0⟩ := by
  have own : read .arrow {} (file :: "--sentinel" :: s.text :: furtherOptions f unfinished) =
      if s.isNegative then .error .usage
      else read .arrow { file := some file, pending := some (.setting .sentinel (some s.text)) }
        (furtherOptions f unfinished) := by
    rw [read_file plain, read_arrow_cons (by decide), take_sentinelOption present, ok_bind,
      read_arrow_cons (text_ne_mark s), take_text]
    split <;> rfl
  have joined : read .arrow {} (file :: ("--sentinel=" ++ s.text) :: furtherOptions f unfinished) =
      read .arrow (filled file s) (furtherOptions f unfinished) := by
    have notMark : "--sentinel=" ++ s.text ≠ "--" := by
      intro h
      cases (toList_joined s.text).symm.trans (congrArg String.toList h)
    rw [read_file plain, read_arrow_cons notMark, take_joinedOption present, ok_bind]
  constructor
  · change parse ("arrow" :: file :: "--sentinel" :: s.text :: furtherOptions f unfinished) = _
    by_cases below : s.isNegative = true
    · rw [if_pos below] at own ⊢
      exact parse_of_refused own
    · rw [if_neg below] at own ⊢
      obtain ⟨q, reads, settled⟩ := read_furtherOptions file s f unfinished (settle_text file s)
      exact parse_of_settled file s f unfinished (own.trans reads) settled
  · change parse ("arrow" :: file :: ("--sentinel=" ++ s.text) :: furtherOptions f unfinished) = _
    obtain ⟨q, reads, settled⟩ := read_furtherOptions (p := filled file s) file s f unfinished rfl
    exact parse_of_settled file s f unfinished (joined.trans reads) settled

/-- The least sentinel of all has to be joined to its option. -/
theorem parse_sentinel_least : "t.arrow" ≠ "" ∧ "t.arrow".toList.head? ≠ some '-' ∧
    parse ["arrow", "t.arrow", "--sentinel", "-9223372036854775808", "--format", "json",
      "--unfinished"] = .error .usage ∧
    parse ["arrow", "t.arrow", "--sentinel=-9223372036854775808", "--format", "json",
      "--unfinished"] =
      .ok ⟨.arrow "t.arrow" (some (.value (-0x8000000000000000))) true, .json, 0⟩ := by
  have present : "t.arrow" ≠ "" := by decide
  have plain : "t.arrow".toList.head? ≠ some '-' := by decide
  exact ⟨present, plain, parse_sentinel present plain (.value (-0x8000000000000000)) .json true⟩

/-- A negative number behind its option is not read, though its text names a sentinel. -/
theorem parse_sentinel_refused :
    Sentinel.ofText? "-7" = .ok (.value (-7)) ∧ (Sentinel.value (-7)).text = "-7" ∧
    parse ["arrow", "t.arrow", "--sentinel", (Sentinel.value (-7)).text, "--format", "text"] =
      .error .usage := ⟨rfl, rfl, rfl⟩

end CommandLine
end LogicalTable
