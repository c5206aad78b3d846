import Mathlib.Data.List.Basic
import SwiftLens.Command.Options

/-!
# Command lines one after the other

A command line is read word by word. What a word says depends on the word after it at most (`effect`), and
it may take that word as its value (`remaining`); only the documentation command takes more. So reading is
one step after another (`parseFrom_cons`), and `reading_induction` follows these steps.

A command line is complete (`IsComplete`) if reading it meets no documentation command and no word at its
end still wants a value. Then a second command line that is put after it is read as if it stood alone, after
what the first one says: `parse_append` says which of the two each option comes from, and which problems are
noted. There is one new problem just in case both have a command, and `Gives` tells its place.

Reading does not look at what was read before, but for one thing: whether there is a command already.
`parseFrom_followedBy` is that two readings that agree on this say the same.
-/

namespace SwiftLens.Options

/-! ### One word -/

/-- What a word can say. -/
inductive Effect where
  | nothing
  | problem (text : Text)
  | command (command : Command)
  | helper (path : Text)
  | timeout (ms : Double)
  | audit
  | verbose
  | help

/-- What has been read, with what a word says. -/
def Effect.apply (o : Options) : Effect → Options
  | nothing => o
  | problem text => o.note text
  | command c => o.take c
  | helper path => { o with helper := some path }
  | timeout ms => { o with timeout := some ms }
  | audit => { o with audit := some true }
  | verbose => { o with verbose := some true }
  | help => { o with help := true }

/-- What a waiting time says. -/
def timeoutEffect (value : Text) : Effect :=
  match Setting.positive? value with
  | some ms => .timeout ms
  | none => .problem ("--timeout-ms expects a positive integer, got " ++ Text.quoted value ++ ".")

/-- What a word without a value says. -/
def flagEffect (word : Text) : Effect :=
  if word = "" then .nothing
  else if word = "--audit" then .audit
  else if word = "--verbose" then .verbose
  else if word = "--help" ∨ word = "-h" then .help
  else .problem ("Unknown argument " ++ Text.quoted word ++ ".")

/-- What a word other than the documentation command says, given the word after it. -/
def effect (word : Text) (value : Option Text) : Effect :=
  let something := value.filter fun v => !v.isEmpty
  match fileCommand? word with
  | some command => something.elim (.problem (word ++ " needs a file path.")) fun file => .command (command file)
  | none =>
    if word = "--syntax-text" then
      value.elim (.problem "--syntax-text needs source text.") fun source => .command (.tokensOfText source)
    else if word = "--bridge" then something.elim .nothing .helper
    else if word = "--timeout-ms" then something.elim .nothing timeoutEffect
    else flagEffect word

/-- The options and commands that have a value. -/
def valueWords : List Text :=
  ["--structure", "--syntax", "--doc-offsets", "--syntax-text", "--bridge", "--timeout-ms"]

/-- Whether a word takes the next one as its value. Only a source text may be empty. -/
def takes (word value : Text) : Bool :=
  valueWords.contains word && (!value.isEmpty || word == "--syntax-text")

/-- What is left of the words after a word when that has been read. -/
def remaining (word : Text) : List Text → List Text
  | [] => []
  | value :: after => if takes word value then after else value :: after

/-- A waiting time has the effect that it has when it is read. -/
theorem apply_timeoutEffect (o : Options) (value : Text) :
    (timeoutEffect value).apply o = o.takeTimeout value := by
  unfold timeoutEffect takeTimeout
  cases Setting.positive? value <;> rfl

/-- A word without a value has the effect that it has when it is read. -/
theorem apply_flagEffect (o : Options) {word : Text} (h : word ≠ "") :
    (flagEffect word).apply o = o.takeFlag word := by
  rw [flagEffect, if_neg h, takeFlag]
  split_ifs <;> rfl

section NotValued

variable {word : Text} (h : word ∉ valueWords)

include h

/-- A word that takes no value is none of those that do. -/
theorem ne_of_notMem_valueWords (w : Text) (hw : w ∈ valueWords) : word ≠ w := fun heq => h (heq ▸ hw)

/-- A word that takes no value is no command on a file. -/
theorem fileCommand?_of_notMem : fileCommand? word = none := by
  unfold fileCommand?
  rw [if_neg (ne_of_notMem_valueWords h "--structure" (by decide)),
    if_neg (ne_of_notMem_valueWords h "--syntax" (by decide)),
    if_neg (ne_of_notMem_valueWords h "--doc-offsets" (by decide))]

/-- After a word that takes no value all the words after it are left. -/
theorem remaining_of_notMem (rest : List Text) : remaining word rest = rest := by
  cases rest <;> simp [remaining, takes, h]

/-- A word without a value says the same whatever comes after it. -/
theorem effect_of_notMem (value : Option Text) : effect word value = flagEffect word := by
  unfold effect
  simp only [fileCommand?_of_notMem h, if_neg (ne_of_notMem_valueWords h "--syntax-text" (by decide)),
    if_neg (ne_of_notMem_valueWords h "--bridge" (by decide)),
    if_neg (ne_of_notMem_valueWords h "--timeout-ms" (by decide))]

end NotValued

/-- The documentation command takes all the words after it. -/
theorem parseFrom_docs (o : Options) (rest : List Text) :
    parseFrom o ("--docs" :: rest) = o.take (.docs rest) := by
  rw [parseFrom.eq_def]
  rfl

/-- Any word but the documentation command is read by itself, and reading goes on with what is left. -/
theorem parseFrom_cons (o : Options) {word : Text} (h : word ≠ "--docs") (rest : List Text) :
    parseFrom o (word :: rest) = parseFrom ((effect word rest.head?).apply o) (remaining word rest) := by
  by_cases hword : word ∈ valueWords
  · simp only [valueWords, List.mem_cons, List.not_mem_nil, or_false] at hword
    rcases hword with rfl | rfl | rfl | rfl | rfl | rfl
    case inr.inr.inr.inr.inr =>
      rcases rest with _ | ⟨_ | ⟨c, value⟩, after⟩
      · rfl
      · rfl
      · exact congrArg (parseFrom · after) (apply_timeoutEffect o (c :: value)).symm
    all_goals
      rcases rest with _ | ⟨_ | ⟨c, value⟩, after⟩ <;> rfl
  · have htext := ne_of_notMem_valueWords hword "--syntax-text" (by decide)
    have hother : ¬(word = "--bridge" ∨ word = "--timeout-ms") :=
      not_or.mpr ⟨ne_of_notMem_valueWords hword _ (by decide), ne_of_notMem_valueWords hword _ (by decide)⟩
    rw [effect_of_notMem hword, remaining_of_notMem hword, parseFrom.eq_def]
    simp only [fileCommand?_of_notMem hword, if_neg h, if_neg htext, if_neg hother]
    by_cases hempty : word = ""
    · rw [if_pos hempty, hempty]
      rfl
    · rw [if_neg hempty, apply_flagEffect o hempty]
      cases rest <;> rfl

/-! ### Complete command lines -/

/-- No words are left but those after a word. -/
theorem length_remaining_le (word : Text) (rest : List Text) :
    (remaining word rest).length ≤ rest.length := by
  cases rest with
  | nil => exact Nat.le_refl 0
  | cons value after =>
    rw [remaining]
    split_ifs <;> simp

/-- What holds of a command line if it holds of what is left when its first word has been read, holds of
all. -/
@[elab_as_elim]
theorem reading_induction {motive : List Text → Prop} (words : List Text) (nil : motive [])
    (docs : ∀ rest : List Text, motive ("--docs" :: rest))
    (cons : ∀ (word : Text) rest, word ≠ "--docs" → motive (remaining word rest) → motive (word :: rest)) :
    motive words := by
  induction hlength : words.length using Nat.strongRecOn generalizing words with
  | _ n ih =>
    cases words with
    | nil => exact nil
    | cons word rest =>
      by_cases hword : word = "--docs"
      · exact hword ▸ docs rest
      · have hle := length_remaining_le word rest
        rw [List.length_cons] at hlength
        exact cons word rest hword (ih _ (by omega) _ rfl)

/-- The words that are read as commands or options and not as values, each with the words after it. -/
def positions : List Text → List (Text × List Text)
  | [] => []
  | [word] => [(word, [])]
  | word :: value :: after =>
    (word, value :: after) ::
      if word = "--docs" then []
      else if takes word value then positions after
      else positions (value :: after)

/-- The first word is read, and then what it leaves. -/
theorem positions_cons {word : Text} (h : word ≠ "--docs") (rest : List Text) :
    positions (word :: rest) = (word, rest) :: positions (remaining word rest) := by
  cases rest with
  | nil => rfl
  | cons value after =>
    rw [positions, if_neg h, remaining]
    split_ifs <;> rfl

/-- The first word is read. -/
theorem mem_positions_cons (word : Text) (rest : List Text) : (word, rest) ∈ positions (word :: rest) := by
  cases rest <;> exact List.mem_cons_self

/-- The documentation command is not among the words that are read, and the last one wants no value. -/
def IsComplete (words : List Text) : Prop :=
  ∀ position ∈ positions words, position.1 ≠ "--docs" ∧ (position.2 = [] → position.1 ∉ valueWords)

instance (words : List Text) : Decidable (IsComplete words) :=
  inferInstanceAs (Decidable (∀ position ∈ positions words, _))

/-- No words are a complete command line. -/
theorem isComplete_nil : IsComplete [] := nofun

/-- A command line that begins with the documentation command is not complete. -/
theorem not_isComplete_docs (rest : List Text) : ¬IsComplete ("--docs" :: rest) := fun h =>
  (h _ (mem_positions_cons "--docs" rest)).1 rfl

/-- A command line is complete if its first word has the value it wants and what it leaves is complete. -/
theorem isComplete_cons {word : Text} (h : word ≠ "--docs") (rest : List Text) :
    IsComplete (word :: rest) ↔ (rest = [] → word ∉ valueWords) ∧ IsComplete (remaining word rest) := by
  simp [IsComplete, positions_cons h, h]

/-- A word takes no more of the words after it when others follow. -/
theorem remaining_append {rest : List Text} (h : rest ≠ []) (word : Text) (more : List Text) :
    remaining word (rest ++ more) = remaining word rest ++ more := by
  obtain ⟨value, after, rfl⟩ := List.exists_cons_of_ne_nil h
  rw [List.cons_append, remaining, remaining]
  split_ifs <;> rfl

/-- After a complete command line reading goes on as after its own end. -/
theorem parseFrom_append {p : List Text} (hp : IsComplete p) (o : Options) (q : List Text) :
    parseFrom o (p ++ q) = parseFrom (parseFrom o p) q := by
  induction p using reading_induction generalizing o with
  | nil => rfl
  | docs rest => exact absurd hp (not_isComplete_docs rest)
  | cons word rest hword ih =>
    obtain ⟨hlast, hrest⟩ := (isComplete_cons hword rest).mp hp
    rw [List.cons_append, parseFrom_cons o hword, parseFrom_cons o hword, ← ih hrest]
    by_cases hnil : rest = []
    · -- the word has no value, so that it does not look at what was put after it
      have hvalue := hlast hnil
      simp only [effect_of_notMem hvalue, remaining_of_notMem hvalue]
    · rw [remaining_append hnil, List.head?_append_of_ne_nil _ hnil]

/-! ### What was read before -/

/-- What two command lines say, the second one after the first. -/
def followedBy (o r : Options) : Options where
  command := o.command.or r.command
  helper := r.helper.or o.helper
  timeout := r.timeout.or o.timeout
  audit := r.audit.or o.audit
  verbose := r.verbose.or o.verbose
  help := o.help || r.help
  problems := o.problems ++ r.problems

/-- A command line that says nothing adds nothing. -/
@[simp] theorem followedBy_empty (o : Options) : o.followedBy empty = o := by
  simp [followedBy, empty]

/-- A problem after two command lines is one of the second. -/
theorem note_followedBy (o r : Options) (problem : Text) :
    (o.followedBy r).note problem = o.followedBy (r.note problem) := by
  simp [followedBy, note]

/-- A command is taken or refused as if the second command line stood alone, unless it would be its first
and there is one before it. -/
theorem take_followedBy {o r : Options} (h : o.command = none ∨ r.command.isSome = true) (c : Command) :
    (o.followedBy r).take c = o.followedBy (r.take c) := by
  by_cases hr : r.command.isSome = true
  · have hboth : (o.followedBy r).command.isSome = true := by simp [followedBy, hr]
    rw [take, if_pos hboth, take, if_pos hr, note_followedBy]
  · have ho := h.resolve_right hr
    have hnone : ¬(o.followedBy r).command.isSome = true := by simpa [followedBy, ho] using hr
    rw [take, if_neg hnone, take, if_neg hr]
    simp [followedBy, ho]

/-- After a command has been read there is one. -/
theorem isSome_command_take (o : Options) (c : Command) : (o.take c).command.isSome = true := by
  unfold take
  split_ifs with h
  · exact h
  · rfl

/-- No word takes a command back. -/
theorem isSome_command_apply {o : Options} (h : o.command.isSome = true) (e : Effect) :
    (e.apply o).command.isSome = true := by
  cases e
  case command c => exact isSome_command_take o c
  all_goals exact h

/-- A word has its effect on the second command line alone, unless it is a first command that comes too late. -/
theorem apply_followedBy {o r : Options} {e : Effect}
    (h : o.command = none ∨ r.command.isSome = true ∨ ∀ c, e ≠ .command c) :
    e.apply (o.followedBy r) = o.followedBy (e.apply r) := by
  cases e
  case problem text => exact note_followedBy o r text
  case command c => exact take_followedBy (h.imp_right fun h => h.resolve_right (absurd rfl <| · c)) c
  all_goals simp [Effect.apply, followedBy]

/-! ### The first command -/

/-- The words begin with a command; the last list is that of the words that are read after it. -/
inductive Gives : List Text → Command → List Text → Prop
  | onFile {word file : Text} {command : Text → Command} (hword : fileCommand? word = some command)
      (hfile : file ≠ "") (rest : List Text) : Gives (word :: file :: rest) (command file) rest
  | onText (source : Text) (rest : List Text) :
      Gives ("--syntax-text" :: source :: rest) (.tokensOfText source) rest
  | docs (rest : List Text) : Gives ("--docs" :: rest) (.docs rest) []

/-- A waiting time is no command. -/
theorem timeoutEffect_ne_command (value : Text) (c : Command) : timeoutEffect value ≠ .command c := by
  unfold timeoutEffect
  split <;> simp

/-- A word without a value is no command. -/
theorem flagEffect_ne_command (word : Text) (c : Command) : flagEffect word ≠ .command c := by
  unfold flagEffect
  split_ifs <;> simp

/-- A source text is taken even if it is empty. -/
theorem remaining_text (source : Text) (after : List Text) :
    remaining "--syntax-text" (source :: after) = after := by
  cases source <;> rfl

/-- A word says a command only if the words from there on begin with it. -/
theorem gives_of_effect {word : Text} {rest : List Text} {c : Command}
    (h : effect word rest.head? = .command c) : Gives (word :: rest) c (remaining word rest) := by
  by_cases hword : word ∈ valueWords
  · simp only [valueWords, List.mem_cons, List.not_mem_nil, or_false] at hword
    rcases hword with rfl | rfl | rfl | rfl | rfl | rfl
    case inr.inr.inr.inr.inr =>
      rcases rest with _ | ⟨_ | ⟨d, value⟩, after⟩
      · cases h
      · cases h
      · exact absurd h (timeoutEffect_ne_command _ c)
    case inr.inr.inr.inl =>
      rcases rest with _ | ⟨source, after⟩
      · cases h
      · cases h
        rw [remaining_text]
        exact .onText source after
    all_goals
      rcases rest with _ | ⟨_ | ⟨d, value⟩, after⟩ <;> cases h
    all_goals exact .onFile rfl (List.cons_ne_nil d value) after
  · rw [effect_of_notMem hword] at h
    exact absurd h (flagEffect_ne_command word c)

/-- A command is taken, and reading goes on after it. -/
theorem parseFrom_of_gives {words after : List Text} {c : Command} (h : Gives words c after) (o : Options) :
    parseFrom o words = parseFrom (o.take c) after := by
  cases h with
  | @onFile word file command hword hfile =>
    have hmem : word ∈ valueWords := by
      by_contra hnot
      simp [fileCommand?_of_notMem hnot] at hword
    have hdocs : word ≠ "--docs" := by
      rintro rfl
      exact absurd hmem (by decide)
    obtain ⟨d, value, rfl⟩ := List.exists_cons_of_ne_nil hfile
    rw [parseFrom_cons o hdocs]
    simp [effect, hword, remaining, takes, hmem, Option.filter, Effect.apply]
  | onText source =>
    rw [parseFrom_cons o (by decide), remaining_text]
    rfl
  | docs rest => exact parseFrom_docs o rest

/-- No word that is read gives a command. -/
def HasNoCommand (words : List Text) : Prop :=
  ∀ position ∈ positions words, ∀ c after, ¬Gives (position.1 :: position.2) c after

/-- There is no command in words if they do not begin with one and there is none in what the first leaves. -/
theorem hasNoCommand_cons {word : Text} (h : word ≠ "--docs") (rest : List Text) :
    HasNoCommand (word :: rest) ↔
      (∀ c after, ¬Gives (word :: rest) c after) ∧ HasNoCommand (remaining word rest) := by
  simp [HasNoCommand, positions_cons h]

/-- The documentation command is a command. -/
theorem not_hasNoCommand_docs (rest : List Text) : ¬HasNoCommand ("--docs" :: rest) := fun h =>
  h _ (mem_positions_cons "--docs" rest) (.docs rest) [] (.docs rest)

/-- Words without a command leave the one that was read. -/
theorem command_parseFrom {words : List Text} (h : HasNoCommand words) (o : Options) :
    (parseFrom o words).command = o.command := by
  induction words using reading_induction generalizing o with
  | nil => rfl
  | docs rest => exact absurd h (not_hasNoCommand_docs rest)
  | cons word rest hword ih =>
    obtain ⟨hgives, hrest⟩ := (hasNoCommand_cons hword rest).mp h
    rw [parseFrom_cons o hword, ih hrest]
    cases heffect : effect word rest.head?
    case command c => exact absurd (gives_of_effect heffect) (hgives c _)
    all_goals rfl

/-- Words say the same after whatever was read before, unless their first command comes too late. -/
theorem parseFrom_followedBy {o r : Options} {words : List Text}
    (h : o.command = none ∨ r.command.isSome = true ∨ HasNoCommand words) :
    parseFrom (o.followedBy r) words = o.followedBy (parseFrom r words) := by
  induction words using reading_induction generalizing r with
  | nil => rfl
  | docs rest =>
    rw [parseFrom_docs, parseFrom_docs]
    exact take_followedBy (h.imp_right fun h => h.resolve_right (not_hasNoCommand_docs rest)) _
  | cons word rest hword ih =>
    rw [hasNoCommand_cons hword] at h
    rw [parseFrom_cons _ hword, parseFrom_cons _ hword, apply_followedBy, ih]
    · exact h.imp_right (Or.imp (isSome_command_apply · _) And.right)
    · exact h.imp_right (Or.imp_right fun h c heffect => h.1 c _ (gives_of_effect heffect))

/-- A command that is given does not depend on the words after it. -/
theorem Gives.exchange {word value : Text} {rest after : List Text} {c : Command} (hword : word ≠ "--docs")
    (h : Gives (word :: value :: rest) c after) (other : List Text) :
    Gives (word :: value :: other) c other := by
  cases h with
  | onFile hcommand hfile => exact .onFile hcommand hfile other
  | onText => exact .onText value other
  | docs => exact absurd rfl hword

/-- A command begins with a word that is not empty. -/
theorem Gives.exists_cons {words after : List Text} {c : Command} (h : Gives words c after) :
    ∃ word rest, words = word :: rest ∧ word ≠ "" := by
  cases h with
  | @onFile word file command hword =>
    refine ⟨word, _, rfl, ?_⟩
    rintro rfl
    exact absurd hword (by rw [fileCommand?_of_notMem (by decide)]; nofun)
  | onText source rest => exact ⟨_, _, rfl, by decide⟩
  | docs rest => exact ⟨_, _, rfl, by decide⟩

/-- A word that gives no command, in front of a complete command line that has none. -/
theorem complete_cons {word : Text} {rest front line : List Text} (hword : word ≠ "--docs")
    (hgives : ∀ c after, ¬Gives (word :: rest) c after) (hrest : remaining word rest = front ++ line)
    (hfront : IsComplete front) (hnone : HasNoCommand front) {c : Command} {after : List Text}
    (hline : Gives line c after) :
    ∃ before, word :: rest = before ++ line ∧ IsComplete before ∧ HasNoCommand before := by
  cases rest with
  | nil =>
    obtain ⟨first, others, rfl, -⟩ := hline.exists_cons
    simp [remaining] at hrest
  | cons value others =>
    rw [remaining] at hrest
    split_ifs at hrest with htakes
    · refine ⟨word :: value :: front, by rw [hrest]; rfl, ?_, ?_⟩
      · rw [isComplete_cons hword, remaining, if_pos htakes]
        exact ⟨nofun, hfront⟩
      · rw [hasNoCommand_cons hword, remaining, if_pos htakes]
        exact ⟨fun c _ h => hgives c _ (h.exchange hword others), hnone⟩
    · cases front with
      | nil =>
        -- the command's first word is not empty, so that a word that wants a value would have taken it
        obtain ⟨first, _, hfirst, hne⟩ := hline.exists_cons
        obtain ⟨rfl, -⟩ := List.cons.inj (hrest.trans hfirst)
        have hword' : word ∉ valueWords := by
          intro hmem
          simp [takes, hmem, show value ≠ [] from hne] at htakes
        refine ⟨[word], by rw [hrest]; rfl, ?_, ?_⟩
        · exact (isComplete_cons hword []).mpr ⟨fun _ => hword', isComplete_nil⟩
        · exact (hasNoCommand_cons hword []).mpr ⟨fun c _ h => by cases h; exact hword rfl, nofun⟩
      | cons first front =>
        obtain ⟨rfl, rfl⟩ := List.cons.inj hrest
        refine ⟨word :: value :: front, rfl, ?_, ?_⟩
        · rw [isComplete_cons hword, remaining, if_neg htakes]
          exact ⟨nofun, hfront⟩
        · rw [hasNoCommand_cons hword, remaining, if_neg htakes]
          exact ⟨fun c _ h => hgives c _ (h.exchange hword _), hnone⟩

/-- Either no word gives a command, or there is a first one: before it stands a complete command line
without a command. -/
theorem hasNoCommand_or_gives (words : List Text) :
    HasNoCommand words ∨ ∃ before line c after, words = before ++ line ∧ IsComplete before ∧
      HasNoCommand before ∧ Gives line c after := by
  induction words using reading_induction with
  | nil => exact .inl nofun
  | docs rest => exact .inr ⟨[], _, _, _, rfl, isComplete_nil, nofun, .docs rest⟩
  | cons word rest hword ih =>
    by_cases hgives : ∃ c after, Gives (word :: rest) c after
    · obtain ⟨c, after, hgives⟩ := hgives
      exact .inr ⟨[], _, c, after, rfl, isComplete_nil, nofun, hgives⟩
    · simp only [not_exists] at hgives
      rcases ih with hnone | ⟨front, line, c, after, hrest, hfront, hnone, hline⟩
      · exact .inl ((hasNoCommand_cons hword rest).mpr ⟨hgives, hnone⟩)
      · obtain ⟨before, hwords, hcomplete, hnone⟩ :=
          complete_cons hword hgives hrest hfront hnone hline
        exact .inr ⟨before, line, c, after, hwords, hcomplete, hnone, hline⟩

/-! ### Two command lines -/

/-- What has been read when there is a command and nothing else. -/
def commanded (c : Command) : Options := { empty with command := some c }

/-- Where there is a command, a further one says nothing. -/
theorem followedBy_commanded {o : Options} (h : o.command.isSome = true) (c : Command) :
    o.followedBy (commanded c) = o := by
  simp [followedBy, commanded, empty, Option.or_of_isSome h]

/-- Where there is no command, one is read as if it stood on a command line of its own. -/
theorem take_eq_followedBy {o : Options} (h : o.command = none) (c : Command) :
    o.take c = o.followedBy (commanded c) := by
  simp [take, h, followedBy, commanded, empty]

/-- Words are read as a command line of their own after what was read, unless their first command comes too
late. -/
theorem parseFrom_eq_followedBy {o : Options} {words : List Text}
    (h : o.command = none ∨ HasNoCommand words) : parseFrom o words = o.followedBy (parse words) := by
  conv_lhs => rw [← followedBy_empty o]
  exact parseFrom_followedBy (h.imp_right .inr)

/-- A command line after a complete one is read from where that one ends. -/
theorem parse_append_eq {p : List Text} (hp : IsComplete p) (q : List Text) :
    parse (p ++ q) = parseFrom (parse p) q := parseFrom_append hp empty q

/-- The first command of a command line, and what is read without it and with it when there is a command
already. -/
theorem parse_append_of_gives {p before line after : List Text} {c : Command} (hp : IsComplete p)
    (hcommand : (parse p).command.isSome = true) (hbefore : IsComplete before) (hnone : HasNoCommand before)
    (hline : Gives line c after) :
    let late := parseFrom (commanded c) after
    parse (before ++ line) = (parse before).followedBy late ∧
    parse (p ++ (before ++ line)) = (((parse p).followedBy (parse before)).note
      ("Only one command may be given; ignoring --" ++ c.name ++ ".")).followedBy late := by
  intro late
  have hc : (commanded c).command.isSome = true := rfl
  constructor
  · have hfree : (parse before).command = none := command_parseFrom hnone empty
    rw [parse_append_eq hbefore, parseFrom_of_gives hline, take_eq_followedBy hfree]
    exact parseFrom_followedBy (.inr (.inl hc))
  · have hboth : ((parse p).followedBy (parse before)).command.isSome = true := by
      simp [followedBy, hcommand]
    rw [parse_append_eq hp, parseFrom_append hbefore, parseFrom_eq_followedBy (.inr hnone),
      parseFrom_of_gives hline, take, if_pos hboth, ← parseFrom_followedBy (.inr (.inl hc)),
      followedBy_commanded]
    exact hboth

/-- What every word keeps is kept by a command line. -/
theorem parseFrom_keeps {I : Options → Prop} (hstep : ∀ o (e : Effect), I o → I (e.apply o)) {o : Options}
    (h : I o) (words : List Text) : I (parseFrom o words) := by
  induction words using reading_induction generalizing o with
  | nil => exact h
  | docs rest =>
    rw [parseFrom_docs]
    exact hstep o (.command (.docs rest)) h
  | cons word rest hword ih =>
    rw [parseFrom_cons o hword]
    exact ih (hstep o _ h)

/-- The first command stays. -/
theorem command_parseFrom_of_some {o : Options} {c : Command} (h : o.command = some c) (words : List Text) :
    (parseFrom o words).command = some c := by
  refine parseFrom_keeps (I := fun o => o.command = some c) ?_ h words
  intro o e h
  cases e
  case command d =>
    rw [Effect.apply, take, if_pos (by simp [h])]
    exact h
  all_goals exact h

/-- The two options without a value can only be switched on. -/
theorem flags_parse (words : List Text) :
    (parse words).audit ≠ some false ∧ (parse words).verbose ≠ some false := by
  refine parseFrom_keeps (I := fun o => o.audit ≠ some false ∧ o.verbose ≠ some false) ?_ ?_ words
  · intro o e h
    cases e
    case command c =>
      rw [Effect.apply, take]
      split_ifs <;> exact h
    case audit => exact ⟨nofun, h.2⟩
    case verbose => exact ⟨h.1, nofun⟩
    all_goals exact h
  · exact ⟨nofun, nofun⟩

/-- Two options, either of which is absent or switched on. -/
theorem or_eq_ite {first second : Option Bool} (hfirst : first ≠ some false) (hsecond : second ≠ some false) :
    second.or first = if first = some true ∨ second = some true then some true else none := by
  rcases first with _ | _ | _ <;> rcases second with _ | _ | _ <;> simp_all

/-- What two command lines say together, in terms of what each of them says. -/
structure Composes (p q : List Text) : Prop where
  helper : (parse (p ++ q)).helper = (parse q).helper.or (parse p).helper
  timeout : (parse (p ++ q)).timeout = (parse q).timeout.or (parse p).timeout
  audit : (parse (p ++ q)).audit =
    if (parse p).audit = some true ∨ (parse q).audit = some true then some true else none
  verbose : (parse (p ++ q)).verbose =
    if (parse p).verbose = some true ∨ (parse q).verbose = some true then some true else none
  help : (parse (p ++ q)).help = ((parse p).help || (parse q).help)
  command : (parse (p ++ q)).command = (parse p).command.or (parse q).command
  /-- The problems are those of the one and then those of the other, unless both have a command. -/
  problems : (parse p).command = none ∨ (parse q).command = none →
    (parse (p ++ q)).problems = (parse p).problems ++ (parse q).problems
  /-- If both have one, the first command of the second is a problem more, between the problems of what
  stands before it and those of what comes after it. -/
  secondCommand : ∀ c, (parse p).command.isSome = true → (parse q).command = some c →
    ∃ before line after late, q = before ++ line ∧ IsComplete before ∧ (parse before).command = none ∧
      Gives line c after ∧ (parse q).problems = (parse before).problems ++ late ∧
      (parse (p ++ q)).problems = (parse p).problems ++ ((parse before).problems ++
        ("Only one command may be given; ignoring --" ++ c.name ++ ".") :: late)

/-- All but the problems is said as if the second command line were read after the first. -/
theorem parse_append_agrees {p : List Text} (hp : IsComplete p) (q : List Text) :
    parse (p ++ q) =
      { (parse p).followedBy (parse q) with problems := (parse (p ++ q)).problems } := by
  by_cases hcommand : (parse p).command = none
  · rw [parse_append_eq hp, parseFrom_eq_followedBy (.inl hcommand)]
  rcases hasNoCommand_or_gives q with hnone | ⟨before, line, c, after, rfl, hbefore, hnone, hline⟩
  · rw [parse_append_eq hp, parseFrom_eq_followedBy (.inr hnone)]
  · obtain ⟨hq, hboth⟩ :=
      parse_append_of_gives hp (Option.isSome_iff_ne_none.mpr hcommand) hbefore hnone hline
    rw [hboth, hq]
    simp [followedBy, note, Option.or_assoc, Bool.or_assoc]

/-- The command of a command line is the first one that is given. -/
theorem command_of_gives {before line after : List Text} {c : Command} (hbefore : IsComplete before)
    (hnone : HasNoCommand before) (hline : Gives line c after) : (parse (before ++ line)).command = some c := by
  rw [parse_append_eq hbefore, parseFrom_of_gives hline]
  apply command_parseFrom_of_some
  have hfree : (parse before).command = none := command_parseFrom hnone empty
  simp [take, hfree]

/-- Two command lines say together what each of them says. -/
theorem composes {p : List Text} (hp : IsComplete p) (q : List Text) : Composes p q := by
  have hsaid := parse_append_agrees hp q
  obtain ⟨haudit, hverbose⟩ := flags_parse p
  obtain ⟨haudit', hverbose'⟩ := flags_parse q
  refine
    { helper := congrArg Options.helper hsaid
      timeout := congrArg Options.timeout hsaid
      audit := (congrArg Options.audit hsaid).trans (or_eq_ite haudit haudit')
      verbose := (congrArg Options.verbose hsaid).trans (or_eq_ite hverbose hverbose')
      help := congrArg Options.help hsaid
      command := congrArg Options.command hsaid
      problems := ?_
      secondCommand := ?_ }
  · intro hcommand
    rw [parse_append_eq hp, parseFrom_eq_followedBy]
    · rfl
    apply hcommand.imp_right
    intro hnone
    rcases hasNoCommand_or_gives q with hfree | ⟨before, line, c, after, rfl, hbefore, hfree, hline⟩
    · exact hfree
    · rw [command_of_gives hbefore hfree hline] at hnone
      cases hnone
  · intro c hcommand hc
    rcases hasNoCommand_or_gives q with hfree | ⟨before, line, d, after, rfl, hbefore, hfree, hline⟩
    · rw [parse, command_parseFrom hfree] at hc
      cases hc
    · obtain rfl : d = c := Option.some.inj ((command_of_gives hbefore hfree hline).symm.trans hc)
      obtain ⟨hq, hboth⟩ := parse_append_of_gives hp hcommand hbefore hfree hline
      refine ⟨before, line, after, (parseFrom (commanded d) after).problems, rfl, hbefore,
        command_parseFrom hfree empty, hline, by rw [hq]; rfl, ?_⟩
      rw [hboth]
      simp [followedBy, note]

/-- A command line that is put after a complete one. Whatever it is, it is read as `Composes` says. After
the documentation command every word is left to the compiler: nothing but the command, or that it comes too
late, is read of it. -/
theorem parse_append {p : List Text} (hp : IsComplete p) :
    (∀ q, Composes p q) ∧
    ∀ rest : List Text, parse (p ++ ("--docs" : Text) :: rest) =
      if (parse p).command.isSome then (parse p).note "Only one command may be given; ignoring --docs."
      else { parse p with command := some (.docs rest) } := by
  refine ⟨composes hp, fun rest => ?_⟩
  rw [parse_append_eq hp, parseFrom_docs]
  rfl

/-- An option that has the documentation command as its value, and a command between two other problems. -/
theorem parse_append_between_problems :
    let p : List Text := ["--structure", "A.swift", "--bridge", "--docs", "--timeout-ms", ""]
    let q : List Text := ["--nope", "--syntax", "B.swift", "--timeout-ms", "soon"]
    IsComplete p ∧ Composes p q ∧
    (parse (p ++ q)).problems = ["Unknown argument \"--nope\".",
      "Only one command may be given; ignoring --syntax.",
      "--timeout-ms expects a positive integer, got \"soon\"."] ∧
    parse (p ++ (["--docs", "--help"] : List Text)) =
      (parse p).note "Only one command may be given; ignoring --docs." := by
  intro p q
  have hp : IsComplete p := by decide
  exact ⟨hp, (parse_append hp).1 q, by decide, (parse_append hp).2 ["--help"]⟩

end SwiftLens.Options
