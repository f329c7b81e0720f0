/-
The default formatter of the logger.

A pattern is compiled into instructions once, and every message is formatted by running
them.  The source keeps the instructions as closures; here they are data, and `run` is the
call.  Local time, `std::put_time` and the text of a thread id belong to the library.
-/
import Mathlib.Data.List.Basic

namespace WWRaftKV

namespace Logger

/-- A `std::string`, character by character. -/
abbrev Text := List Char

/-! ## Messages -/

inductive LogLevel
  | trace
  | debug
  | info
  | warn
  | error
  | fatal
  | off
deriving DecidableEq, Repr

structure LogMessage (τ θ : Type) where
  name : Text
  level : LogLevel
  message : Text
  file : Text
  line : Nat
  function : Text
  timestamp : τ
  threadId : θ

/-- What the formatter calls: `localtime_r` of the time stamp, `std::put_time` with a format
of one directive, and the text of a thread id. -/
structure Library (τ θ tm : Type) where
  localtime : τ → tm
  putTime : tm → Char → Text
  showThread : θ → Text

def formatLogLevel : LogLevel → Text
  | .trace => "trace".toList
  | .debug => "debug".toList
  | .info => "info".toList
  | .warn => "warn".toList
  | .error => "error".toList
  | .fatal => "fatal".toList
  | .off => "unknown".toList

/-! ## Instructions -/

inductive Instruction
  | time (code : Char)
  | level
  | threadId
  | file
  | line
  | function
  | place
  | name
  | message
  | unknown (code : Char)
  | literal (text : Text)
deriving DecidableEq, Repr

/-- The labels that share the body with `std::put_time`. -/
def timeCodes : List Char :=
  ['Y', 'y', 'b', 'h', 'B', 'm', 'd', 'e', 'a', 'A', 'w', 'u', 'H', 'I', 'M', 'S', 'c', 'D', 'F',
    'T', 'P', 'Z']

/-- The `switch` of `compile`. -/
def directive (code : Char) : Instruction :=
  if code ∈ timeCodes then .time code
  else
    match code with
    | 'L' => .level
    | 't' => .threadId
    | 'f' => .file
    | 'l' => .line
    | 'C' => .function
    | 'V' => .place
    | 'n' => .name
    | 'v' => .message
    | code => .unknown code

/-- The labels of the `switch` before `default`. -/
def knownCodes : List Char := timeCodes ++ ['L', 't', 'f', 'l', 'C', 'V', 'n', 'v']

/-! ## Compilation -/

/-- `pattern[i] == '%' && i + 1 < pattern.size()`. -/
def directiveAt (pattern : Text) (i : Nat) : Prop :=
  pattern[i]? = some '%' ∧ i + 1 < pattern.length

instance (pattern : Text) (i : Nat) : Decidable (directiveAt pattern i) :=
  inferInstanceAs (Decidable (_ ∧ _))

/-- The inner loop: `i` goes to the next directive or to the end. -/
def scan (pattern : Text) : Nat → Nat → Option Nat
  | 0, _ => none
  | rounds + 1, i =>
    if i < pattern.length ∧ ¬ directiveAt pattern i then scan pattern rounds (i + 1) else some i

/-- The loop of `compile`.  `none` is a loop that has not ended after so many rounds, or an
index that is stepped back from 0. -/
def compileLoop (pattern : Text) : Nat → Nat → List Instruction → Option (List Instruction)
  | 0, _, _ => none
  | rounds + 1, i, instructions =>
    if i < pattern.length then
      if directiveAt pattern i then
        match pattern[i + 1]? with
        | some code =>
          -- `++i` behind the switch, and the one of the loop
          compileLoop pattern rounds (i + 1 + 1) (instructions ++ [directive code])
        | none => none
      else
        match scan pattern (pattern.length + 1) i with
        | some 0 => none
        | some (stop + 1) =>
          -- `--i` leads to `stop`, and the loop goes on behind it
          let literal := (pattern.drop i).take (stop + 1 - i)
          compileLoop pattern rounds (stop + 1) (instructions ++ [.literal literal])
        | none => none
    else some instructions

def compile (pattern : Text) : Option (List Instruction) :=
  compileLoop pattern (pattern.length + 1) 0 []

/-! ## Formatting -/

/-- The members that `format` uses. -/
structure DefaultFormatter (tm : Type) where
  tmTime : tm
  timed : Bool
  instructions : List Instruction

section Format

variable {τ θ tm : Type}

/-- One call of an instruction: the formatter after it, and the stream. -/
def Instruction.run (lib : Library τ θ tm) (msg : LogMessage τ θ) :
    Instruction → DefaultFormatter tm × Text → DefaultFormatter tm × Text
  | .time code, (f, oss) =>
    let f := if f.timed then f else { f with tmTime := lib.localtime msg.timestamp, timed := true }
    (f, oss ++ lib.putTime f.tmTime code)
  | .level, (f, oss) => (f, oss ++ formatLogLevel msg.level)
  | .threadId, (f, oss) => (f, oss ++ lib.showThread msg.threadId)
  | .file, (f, oss) => (f, oss ++ msg.file)
  | .line, (f, oss) => (f, oss ++ (Nat.repr msg.line).toList)
  | .function, (f, oss) => (f, oss ++ msg.function)
  | .place, (f, oss) =>
    (f, oss ++ msg.file ++ [':'] ++ (Nat.repr msg.line).toList ++ ['-'] ++ msg.function)
  | .name, (f, oss) => (f, oss ++ msg.name)
  | .message, (f, oss) => (f, oss ++ msg.message)
  | .unknown code, (f, oss) => (f, oss ++ ['%', code])
  | .literal text, (f, oss) => (f, oss ++ text)

def DefaultFormatter.format (lib : Library τ θ tm) (f : DefaultFormatter tm)
    (msg : LogMessage τ θ) : Text × DefaultFormatter tm :=
  let (f, oss) := f.instructions.foldl (fun out instruction => instruction.run lib msg out) (f, [])
  (oss, { f with timed := false })

/-- The texts of a sequence of messages. -/
def DefaultFormatter.formatAll (lib : Library τ θ tm) :
    DefaultFormatter tm → List (LogMessage τ θ) → List Text
  | _, [] => []
  | f, msg :: msgs =>
    let (text, f) := f.format lib msg
    text :: DefaultFormatter.formatAll lib f msgs

end Format

/-! ## What the pattern says -/

/-- The part of the pattern that an instruction comes from. -/
def Instruction.source : Instruction → Text
  | .time code => ['%', code]
  | .level => ['%', 'L']
  | .threadId => ['%', 't']
  | .file => ['%', 'f']
  | .line => ['%', 'l']
  | .function => ['%', 'C']
  | .place => ['%', 'V']
  | .name => ['%', 'n']
  | .message => ['%', 'v']
  | .unknown code => ['%', code]
  | .literal text => text

theorem directive_source (code : Char) : (directive code).source = ['%', code] := by
  unfold directive
  split
  · rfl
  · split <;> rfl

theorem directive_unknown {code : Char} (h : code ∉ knownCodes) :
    directive code = .unknown code := by
  rw [knownCodes, List.mem_append, not_or] at h
  unfold directive
  rw [if_neg h.1]
  split <;> first | rfl | exact absurd h.2 (by decide)

/-- The text starts with a directive. -/
def StartsDirective (text : Text) : Prop := ∃ code rest, text = '%' :: code :: rest

/-- The pattern from left to right: a `%` and a character are a directive, and what is up to
the next directive, or to the end, is one literal. -/
inductive Splits : Text → List Instruction → Prop
  | nil : Splits [] []
  | directive {code : Char} {rest : Text} {is : List Instruction} (h : Splits rest is) :
      Splits ('%' :: code :: rest) (directive code :: is)
  | literal {text rest : Text} {is : List Instruction} (hne : text ≠ [])
      (hinside : ∀ pre post, text = pre ++ post → post ≠ [] → ¬ StartsDirective (post ++ rest))
      (hend : rest = [] ∨ StartsDirective rest) (h : Splits rest is) :
      Splits (text ++ rest) (.literal text :: is)

theorem Splits.sources {pattern : Text} {is : List Instruction} (h : Splits pattern is) :
    (is.map Instruction.source).flatten = pattern := by
  induction h with
  | nil => rfl
  | directive _ ih =>
    rw [List.map_cons, List.flatten_cons, ih, directive_source]
    rfl
  | literal _ _ _ _ ih =>
    rw [List.map_cons, List.flatten_cons, ih]
    rfl

/-! ## The loop -/

section Loop

variable {pattern : Text} {i j n : Nat}

theorem directiveAt_iff : directiveAt pattern i ↔ StartsDirective (pattern.drop i) := by
  constructor
  · rintro ⟨hper, hlt⟩
    obtain ⟨hi, hget⟩ := List.getElem?_eq_some_iff.mp hper
    refine ⟨pattern[i + 1], pattern.drop (i + 1 + 1), ?_⟩
    rw [List.drop_eq_getElem_cons hi, List.drop_eq_getElem_cons hlt, hget]
  · rintro ⟨code, rest, h⟩
    have hget := congrArg (·[0]?) h
    have hlen := congrArg List.length h
    rw [List.length_drop, List.length_cons, List.length_cons] at hlen
    refine ⟨?_, by omega⟩
    simpa using hget

/-- The scan ends at the first directive. -/
theorem scan_spec (hi : i ≤ pattern.length) (hn : pattern.length - i < n) :
    ∃ j, scan pattern n i = some j ∧ i ≤ j ∧ j ≤ pattern.length ∧
      (∀ k, i ≤ k → k < j → ¬ directiveAt pattern k) ∧
      (j = pattern.length ∨ directiveAt pattern j) := by
  induction n generalizing i with
  | zero => omega
  | succ n ih =>
    rw [scan]
    by_cases hgo : i < pattern.length ∧ ¬ directiveAt pattern i
    · rw [if_pos hgo]
      obtain ⟨j, hrun, hle, hj, hnone, hend⟩ := ih (i := i + 1) (by omega) (by omega)
      refine ⟨j, hrun, by omega, hj, fun k hk hkj => ?_, hend⟩
      by_cases hki : k = i
      · rw [hki]
        exact hgo.2
      · exact hnone k (by omega) hkj
    · rw [if_neg hgo]
      refine ⟨i, rfl, Nat.le_refl _, hi, fun k hk hkj => by omega, ?_⟩
      by_cases hlt : i < pattern.length
      · exact .inr (by_contra fun hd => hgo ⟨hlt, hd⟩)
      · exact .inl (by omega)

/-- What the scan has passed is a literal in front of the rest. -/
theorem splits_literal {is : List Instruction} (hij : i < j) (hj : j ≤ pattern.length)
    (hnone : ∀ k, i ≤ k → k < j → ¬ directiveAt pattern k)
    (hend : j = pattern.length ∨ directiveAt pattern j) (h : Splits (pattern.drop j) is) :
    Splits (pattern.drop i) (.literal ((pattern.drop i).take (j - i)) :: is) := by
  have hback : i + (j - i) = j := by omega
  have hsplit : pattern.drop i = (pattern.drop i).take (j - i) ++ pattern.drop j := by
    conv_lhs => rw [← List.take_append_drop (j - i) (pattern.drop i), List.drop_drop, hback]
  have hlen : ((pattern.drop i).take (j - i)).length = j - i := by
    rw [List.length_take, List.length_drop]
    omega
  have hlit : Splits ((pattern.drop i).take (j - i) ++ pattern.drop j)
      (.literal ((pattern.drop i).take (j - i)) :: is) := Splits.literal ?_ ?_ ?_ h
  · rwa [← hsplit] at hlit
  · intro hnil
    rw [hnil, List.length_nil] at hlen
    omega
  · intro pre post htext hpost hstarts
    have hpos := List.length_pos_iff.mpr hpost
    rw [htext, List.length_append] at hlen
    apply hnone (i + pre.length) (by omega) (by omega)
    rw [directiveAt_iff, ← List.drop_drop, hsplit, htext, List.append_assoc, List.drop_left]
    exact hstarts
  · rcases hend with rfl | hd
    · exact .inl (List.drop_of_length_le (Nat.le_refl _))
    · exact .inr (directiveAt_iff.mp hd)

/-- The rest of the pattern splits into `is`, and enough rounds of the loop add just these. -/
structure Compiles (pattern : Text) (i : Nat) (is : List Instruction) : Prop where
  splits : Splits (pattern.drop i) is
  run : ∀ rounds, pattern.length - i < rounds → ∀ instructions,
    compileLoop pattern rounds i instructions = some (instructions ++ is)

theorem compiles_nil (hi : pattern.length ≤ i) : Compiles pattern i [] where
  splits := by
    rw [List.drop_of_length_le hi]
    exact Splits.nil
  run rounds hrounds instructions := by
    cases rounds with
    | zero => omega
    | succ rounds => rw [compileLoop, if_neg (by omega), List.append_nil]

/-- A directive in front of the rest. -/
theorem Compiles.directive {code : Char} {is : List Instruction} (hd : directiveAt pattern i)
    (hnext : pattern[i + 1]? = some code) (h : Compiles pattern (i + 1 + 1) is) :
    Compiles pattern i (directive code :: is) where
  splits := by
    obtain ⟨next, rest, hdrop⟩ := directiveAt_iff.mp hd
    have hget := congrArg (·[1]?) hdrop
    have htail := congrArg (List.drop 2) hdrop
    have hsplits := h.splits
    simp only [List.getElem?_drop, hnext, List.getElem?_cons_succ, List.getElem?_cons_zero,
      Option.some.injEq] at hget
    simp only [List.drop_drop, List.drop_succ_cons, List.drop_zero] at htail
    rw [htail] at hsplits
    rw [hdrop, ← hget]
    exact Splits.directive hsplits
  run rounds hrounds instructions := by
    have hlt := hd.2
    cases rounds with
    | zero => omega
    | succ rounds =>
      rw [compileLoop, if_pos (by omega), if_pos hd, hnext]
      dsimp only
      rw [h.run rounds (by omega), List.append_assoc]
      rfl

/-- A literal up to where the scan has come, in front of the rest. -/
theorem Compiles.literal {is : List Instruction} (hd : ¬ directiveAt pattern i)
    (hlt : i < pattern.length) (hscan : scan pattern (pattern.length + 1) i = some j)
    (hij : i < j) (hj : j ≤ pattern.length)
    (hnone : ∀ k, i ≤ k → k < j → ¬ directiveAt pattern k)
    (hend : j = pattern.length ∨ directiveAt pattern j) (h : Compiles pattern j is) :
    Compiles pattern i (.literal ((pattern.drop i).take (j - i)) :: is) where
  splits := splits_literal hij hj hnone hend h.splits
  run rounds hrounds instructions := by
    cases rounds with
    | zero => omega
    | succ rounds =>
      cases j with
      | zero => omega
      | succ j =>
        rw [compileLoop, if_pos hlt, if_neg hd, hscan]
        dsimp only
        rw [h.run rounds (by omega), List.append_assoc]
        rfl

/-- From any index the loop adds the instructions of the rest of the pattern. -/
theorem compileLoop_spec (hi : i ≤ pattern.length) : ∃ is, Compiles pattern i is := by
  induction hm : pattern.length - i using Nat.strongRecOn generalizing i with
  | ind m ih =>
    by_cases hlt : i < pattern.length
    · by_cases hd : directiveAt pattern i
      · have hnext := hd.2
        obtain ⟨is, h⟩ := ih (pattern.length - (i + 1 + 1)) (by omega) (i := i + 1 + 1) hnext rfl
        exact ⟨_, h.directive hd (List.getElem?_eq_getElem hnext)⟩
      · obtain ⟨j, hscan, hle, hj, hnone, hend⟩ :=
          scan_spec (n := pattern.length + 1) hi (by omega)
        have hij : i < j := by
          rcases hend with rfl | hdj
          · exact hlt
          · rcases Nat.lt_or_eq_of_le hle with h | rfl
            · exact h
            · exact absurd hdj hd
        obtain ⟨is, h⟩ := ih (pattern.length - j) (by omega) (i := j) hj rfl
        exact ⟨_, h.literal hd hlt hscan hij hj hnone hend⟩
    · exact ⟨[], compiles_nil (by omega)⟩

end Loop

/-! ## The output -/

section Output

variable {τ θ tm : Type} {lib : Library τ θ tm} {msg : LogMessage τ θ}

/-- What an instruction stands for in a message. -/
def Instruction.expansion (lib : Library τ θ tm) (msg : LogMessage τ θ) : Instruction → Text
  | .time code => lib.putTime (lib.localtime msg.timestamp) code
  | .level => formatLogLevel msg.level
  | .threadId => lib.showThread msg.threadId
  | .file => msg.file
  | .line => (Nat.repr msg.line).toList
  | .function => msg.function
  | .place => msg.file ++ [':'] ++ (Nat.repr msg.line).toList ++ ['-'] ++ msg.function
  | .name => msg.name
  | .message => msg.message
  | .unknown code => ['%', code]
  | .literal text => text

/-- The cached time, when there is one, is that of the message. -/
def DefaultFormatter.Current (lib : Library τ θ tm) (msg : LogMessage τ θ)
    (f : DefaultFormatter tm) : Prop :=
  f.timed = true → f.tmTime = lib.localtime msg.timestamp

/-- An instruction writes its expansion, whether or not the time is cached. -/
theorem Instruction.run_spec (instruction : Instruction) {f : DefaultFormatter tm}
    (hf : f.Current lib msg) (oss : Text) :
    (instruction.run lib msg (f, oss)).1.Current lib msg ∧
      (instruction.run lib msg (f, oss)).1.instructions = f.instructions ∧
      (instruction.run lib msg (f, oss)).2 = oss ++ instruction.expansion lib msg := by
  cases instruction with
  | time code =>
    cases ht : f.timed with
    | false =>
      have hrun : (Instruction.time code).run lib msg (f, oss) =
          ({ f with tmTime := lib.localtime msg.timestamp, timed := true },
            oss ++ lib.putTime (lib.localtime msg.timestamp) code) := by
        rw [Instruction.run, ht]
        rfl
      rw [hrun]
      exact ⟨fun _ => rfl, rfl, rfl⟩
    | true =>
      have hrun : (Instruction.time code).run lib msg (f, oss) =
          (f, oss ++ lib.putTime (lib.localtime msg.timestamp) code) := by
        rw [Instruction.run, ht, ← hf ht]
        rfl
      rw [hrun]
      exact ⟨hf, rfl, rfl⟩
  | place =>
    refine ⟨hf, rfl, ?_⟩
    simp only [Instruction.run, Instruction.expansion, List.append_assoc]
  | level => exact ⟨hf, rfl, rfl⟩
  | threadId => exact ⟨hf, rfl, rfl⟩
  | file => exact ⟨hf, rfl, rfl⟩
  | line => exact ⟨hf, rfl, rfl⟩
  | function => exact ⟨hf, rfl, rfl⟩
  | name => exact ⟨hf, rfl, rfl⟩
  | message => exact ⟨hf, rfl, rfl⟩
  | unknown code => exact ⟨hf, rfl, rfl⟩
  | literal text => exact ⟨hf, rfl, rfl⟩

theorem foldl_run (is : List Instruction) {f : DefaultFormatter tm} (hf : f.Current lib msg)
    (oss : Text) :
    (is.foldl (fun out instruction => instruction.run lib msg out) (f, oss)).1.instructions =
        f.instructions ∧
      (is.foldl (fun out instruction => instruction.run lib msg out) (f, oss)).2 =
        oss ++ (is.map (·.expansion lib msg)).flatten := by
  induction is generalizing f oss with
  | nil => exact ⟨rfl, (List.append_nil oss).symm⟩
  | cons i is ih =>
    obtain ⟨hcur, hkeep, hout⟩ := i.run_spec hf oss
    obtain ⟨hkeep', hout'⟩ := ih hcur (i.run lib msg (f, oss)).2
    refine ⟨hkeep'.trans hkeep, ?_⟩
    rw [List.foldl_cons, List.map_cons, List.flatten_cons, ← List.append_assoc, ← hout]
    exact hout'

/-- A formatter that has no time cached writes the expansions in order, and has no time
cached afterwards. -/
theorem DefaultFormatter.formatAll_eq (f : DefaultFormatter tm) (hf : f.timed = false)
    (msgs : List (LogMessage τ θ)) :
    f.formatAll lib msgs =
      msgs.map fun msg => (f.instructions.map (·.expansion lib msg)).flatten := by
  induction msgs generalizing f with
  | nil => rfl
  | cons msg msgs ih =>
    have hcur : f.Current lib msg := by
      intro ht
      rw [hf] at ht
      cases ht
    obtain ⟨hkeep, hout⟩ := foldl_run f.instructions hcur []
    have hrest := ih (f.format lib msg).2 rfl
    have hsame : (f.format lib msg).2.instructions = f.instructions := hkeep
    rw [DefaultFormatter.formatAll, List.map_cons]
    dsimp only
    rw [hrest, hsame]
    exact congrArg (· :: _) hout

end Output

/-- Every pattern compiles, in a number of rounds that its length bounds, into instructions
that it splits into from left to right and that make it up again.  Every sequence of
messages is formatted by their expansions, and an unknown directive is printed as it
stands. -/
theorem compile_lossless (pattern : Text) :
    ∃ is, (∀ rounds, pattern.length < rounds → compileLoop pattern rounds 0 [] = some is) ∧
      Splits pattern is ∧ (is.map Instruction.source).flatten = pattern ∧
      (∀ {τ θ tm : Type} (lib : Library τ θ tm) (tmTime : tm) (msgs : List (LogMessage τ θ)),
        DefaultFormatter.formatAll lib
            { tmTime := tmTime, timed := false, instructions := is } msgs =
          msgs.map fun msg => (is.map (·.expansion lib msg)).flatten) ∧
      ∀ {τ θ tm : Type} (lib : Library τ θ tm) (msg : LogMessage τ θ),
        ∀ code ∉ knownCodes, (directive code).expansion lib msg = ['%', code] := by
  obtain ⟨is, hsplits, hrun⟩ := compileLoop_spec (Nat.zero_le pattern.length)
  rw [List.drop_zero] at hsplits
  refine ⟨is, fun rounds hrounds => ?_, hsplits, hsplits.sources, ?_, ?_⟩
  · rw [hrun rounds (by omega), List.nil_append]
  · intro τ θ tm lib tmTime msgs
    exact DefaultFormatter.formatAll_eq _ rfl msgs
  · intro τ θ tm lib msg code hcode
    rw [directive_unknown hcode]
    rfl

example : compile "[%n] 100%%%".toList = some [.literal ['['], .name, .literal "] 100".toList,
    .unknown '%', .literal ['%']] := by decide

end Logger

end WWRaftKV
