import SwiftLens.Proofs.Json.Compact

/-!
# JSON over lines

`Json.layOut` is how the standard has JSON laid out: a writer that carries the indentation of the line it is
on, makes it longer by a gap when it enters a container, and steps back when it leaves. It leaves the
indentation as it found it (`layOut_run`), so that what it writes is a function of the indentation
(`laidOut`). Without a gap there are no lines, and it writes what `write` writes (`laidOut_nil`).

`Json.outline` says by lines what is laid out with a gap of two spaces. Every line has a depth, and it is
printed with two spaces for each level of it. An empty container is on one line; the members of any other
begin a line each, one level deeper than its brackets. `splitOn_laidOut` is that the lines of what is laid
out are those of the outline.
-/

namespace SwiftLens

/-! ### Pieces of a text -/

namespace Text

variable {p : CodeUnit → Bool}

/-- A piece ends where the first unit stands that divides. -/
theorem splitOn_append_cons {t : Text} (ht : ∀ d ∈ t, p d = false) {c : CodeUnit} (hc : p c = true)
    (rest : Text) : splitOn p (t ++ c :: rest) = t :: splitOn p rest := by
  induction t with
  | nil => rw [List.nil_append, splitOn, if_pos hc]
  | cons d t ih =>
    obtain ⟨hd, ht⟩ := List.forall_mem_cons.mp ht
    rw [List.cons_append, splitOn, if_neg (by simp [hd]), ih ht]

/-- A text without a place to split it is one piece. -/
theorem splitOn_of_forall {t : Text} (ht : ∀ d ∈ t, p d = false) : splitOn p t = [t] := by
  induction t with
  | nil => rfl
  | cons d t ih =>
    obtain ⟨hd, ht⟩ := List.forall_mem_cons.mp ht
    rw [splitOn, if_neg (by simp [hd]), ih ht]

/-- The first of several texts is joined to the others by one separator. -/
theorem join_cons_cons (separator t next : Text) (rest : List Text) :
    join separator (t :: next :: rest) = t ++ (separator ++ join separator (next :: rest)) := rfl

/-- Texts that are joined by a unit that is in none of them are told apart again. -/
theorem splitOn_join {c : CodeUnit} (hc : p c = true) {texts : List Text} (hne : texts ≠ [])
    (htexts : ∀ t ∈ texts, ∀ d ∈ t, p d = false) : splitOn p (join [c] texts) = texts := by
  induction texts with
  | nil => exact absurd rfl hne
  | cons t rest ih =>
    obtain ⟨ht, hrest⟩ := List.forall_mem_cons.mp htexts
    cases rest with
    | nil => exact splitOn_of_forall ht
    | cons next rest =>
      rw [join_cons_cons, List.singleton_append, splitOn_append_cons ht hc,
        ih (List.cons_ne_nil _ _) hrest]

/-- Joining two lists is joining what each of them joins to. -/
theorem join_append (separator : Text) {first second : List Text} (hfirst : first ≠ [])
    (hsecond : second ≠ []) :
    join separator (first ++ second) =
      join separator first ++ (separator ++ join separator second) := by
  obtain ⟨u, others, rfl⟩ := List.exists_cons_of_ne_nil hsecond
  induction first with
  | nil => exact absurd rfl hfirst
  | cons t rest ih =>
    cases rest with
    | nil => rfl
    | cons next rest =>
      have hrest := ih (List.cons_ne_nil _ _)
      rw [List.cons_append] at hrest
      rw [List.cons_append, List.cons_append, join_cons_cons, hrest, join_cons_cons]
      simp only [List.append_assoc]

/-- What stands ahead of each text may as well stand after each separator. -/
theorem join_map_append (separator ahead : Text) {texts : List Text} (hne : texts ≠ []) :
    join separator (texts.map (ahead ++ ·)) = ahead ++ join (separator ++ ahead) texts := by
  induction texts with
  | nil => exact absurd rfl hne
  | cons t rest ih =>
    cases rest with
    | nil => rfl
    | cons next rest =>
      have hrest := ih (List.cons_ne_nil _ _)
      rw [List.map_cons] at hrest
      rw [List.map_cons, List.map_cons, join_cons_cons, hrest, join_cons_cons]
      simp only [List.append_assoc]

end Text

/-! ### The writer -/

namespace Json

open CodeUnit

variable {ν : Type} (gap : Text) (figure : ν → Text)

/-- The parts of a container between its brackets. With a gap each part is on a line of its own, and
`stepback` stands ahead of the closing bracket. -/
def wrap (gap opening closing indent stepback : Text) : List Text → Text
  | [] => opening ++ closing
  | parts =>
    if gap = [] then opening ++ Text.join "," parts ++ closing
    else opening ++ "\n" ++ indent ++ Text.join (",\n" ++ indent) parts ++ "\n" ++ stepback ++ closing

/-- With a gap the parts stand on lines of their own. -/
theorem wrap_cons {gap : Text} (hgap : gap ≠ []) (opening closing indent stepback part : Text)
    (rest : List Text) :
    wrap gap opening closing indent stepback (part :: rest) =
      opening ++ "\n" ++ indent ++ Text.join (",\n" ++ indent) (part :: rest) ++ "\n" ++ stepback
        ++ closing := if_neg hgap

/-- What stands between a key and its value. -/
def colonText (gap : Text) : Text := if gap = [] then ":" else ": "

mutual

/-- Lay out a value. The state is the indentation; `figure` is how numbers are written. -/
def layOut (gap : Text) (figure : ν → Text) : Json ν → StateM Text Text
  | null => pure "null"
  | bool true => pure "true"
  | bool false => pure "false"
  | number n => pure (figure n)
  | string t => pure (writeString t)
  | array items => do
    let stepback ← get
    set (stepback ++ gap)
    let parts ← layOutItems gap figure items
    let indent ← get
    set stepback
    return wrap gap "[" "]" indent stepback parts
  | object members => do
    let stepback ← get
    set (stepback ++ gap)
    let parts ← layOutMembers gap figure members
    let indent ← get
    set stepback
    return wrap gap "\x7b" "\x7d" indent stepback parts

/-- Lay out items. -/
def layOutItems (gap : Text) (figure : ν → Text) : List (Json ν) → StateM Text (List Text)
  | [] => pure []
  | item :: rest => do
    let part ← layOut gap figure item
    let parts ← layOutItems gap figure rest
    return part :: parts

/-- Lay out members, each as its key and its value. -/
def layOutMembers (gap : Text) (figure : ν → Text) : List (Text × Json ν) → StateM Text (List Text)
  | [] => pure []
  | (key, value) :: rest => do
    let part ← layOut gap figure value
    let parts ← layOutMembers gap figure rest
    return (writeString key ++ colonText gap ++ part) :: parts

end

/-- A value as it is laid out where the indentation is as given. -/
def laidOut (indent : Text) (j : Json ν) : Text := ((layOut gap figure j).run indent).1

/-- A member as it is laid out where the indentation is as given. -/
def memberLaidOut (indent : Text) (member : Text × Json ν) : Text :=
  writeString member.1 ++ colonText gap ++ laidOut gap figure indent member.2

/-- The writer leaves the indentation as it found it. -/
theorem layOut_run (j : Json ν) (indent : Text) :
    (layOut gap figure j).run indent = (laidOut gap figure indent j, indent) := by
  cases j with
  | bool b => cases b <;> rfl
  | null | number _ | string _ | array _ | object _ => rfl

/-- Laying out items leaves the indentation as it was, and lays out each of them there. -/
theorem layOutItems_run (items : List (Json ν)) (indent : Text) :
    (layOutItems gap figure items).run indent = (items.map (laidOut gap figure indent), indent) := by
  induction items with
  | nil => rfl
  | cons item rest ih =>
    rw [layOutItems, StateT.run_bind, layOut_run]
    show (fun parts : List Text × Text => (_ :: parts.1, parts.2))
      ((layOutItems gap figure rest).run indent) = _
    rw [ih, List.map_cons]

/-- Laying out members leaves the indentation as it was, and lays out each of them there. -/
theorem layOutMembers_run (members : List (Text × Json ν)) (indent : Text) :
    (layOutMembers gap figure members).run indent =
      (members.map (memberLaidOut gap figure indent), indent) := by
  induction members with
  | nil => rfl
  | cons member rest ih =>
    rw [layOutMembers, StateT.run_bind, layOut_run]
    show (fun parts : List Text × Text => (_ :: parts.1, parts.2))
      ((layOutMembers gap figure rest).run indent) = _
    rw [ih, List.map_cons, memberLaidOut]

/-- An array is laid out with its items one gap further in. -/
theorem laidOut_array (indent : Text) (items : List (Json ν)) :
    laidOut gap figure indent (array items) =
      wrap gap "[" "]" (indent ++ gap) indent (items.map (laidOut gap figure (indent ++ gap))) := by
  show (fun parts : List Text × Text => wrap gap "[" "]" parts.2 indent parts.1)
    ((layOutItems gap figure items).run (indent ++ gap)) = _
  rw [layOutItems_run]

/-- An object is laid out with its members one gap further in. -/
theorem laidOut_object (indent : Text) (members : List (Text × Json ν)) :
    laidOut gap figure indent (object members) =
      wrap gap "\x7b" "\x7d" (indent ++ gap) indent
        (members.map (memberLaidOut gap figure (indent ++ gap))) := by
  show (fun parts : List Text × Text => wrap gap "\x7b" "\x7d" parts.2 indent parts.1)
    ((layOutMembers gap figure members).run (indent ++ gap)) = _
  rw [layOutMembers_run]

/-! ### Without a gap -/

/-- Without a gap the parts stand on one line. -/
theorem wrap_nil (opening closing indent stepback : Text) (parts : List Text) :
    wrap [] opening closing indent stepback parts = opening ++ Text.join "," parts ++ closing := by
  cases parts with
  | nil => rw [wrap, Text.join, List.append_nil]
  | cons part rest => rfl

mutual

/-- What is laid out without a gap is written on one line. -/
theorem laidOut_nil : (j : Json Double) → ∀ indent, laidOut [] writeNumber indent j = write j
  | null, _ | bool true, _ | bool false, _ | number _, _ | string _, _ => rfl
  | array items, indent => by
      rw [laidOut_array, List.append_nil, wrap_nil, itemsLaidOut_nil items, write]
  | object members, indent => by
      rw [laidOut_object, List.append_nil, wrap_nil, membersLaidOut_nil members, write]

/-- Without a gap items are laid out as they are written compactly. -/
theorem itemsLaidOut_nil : (items : List (Json Double)) → ∀ indent,
    Text.join "," (items.map (laidOut [] writeNumber indent)) = writeItems items
  | [], _ => rfl
  | [item], indent => laidOut_nil item indent
  | item :: next :: rest, indent => by
      show _ = write item ++ "," ++ writeItems (next :: rest)
      rw [List.map_cons, List.map_cons, Text.join_cons_cons, ← List.map_cons,
        itemsLaidOut_nil (next :: rest), laidOut_nil item, List.append_assoc]

/-- Without a gap members are laid out as they are written compactly. -/
theorem membersLaidOut_nil : (members : List (Text × Json Double)) → ∀ indent,
    Text.join "," (members.map (memberLaidOut [] writeNumber indent)) = writeMembers members
  | [], _ => rfl
  | [(key, value)], indent => by
      rw [List.map_singleton, Text.join, memberLaidOut, laidOut_nil value]
      rfl
  | (key, value) :: next :: rest, indent => by
      show _ = writeString key ++ ":" ++ write value ++ "," ++ writeMembers (next :: rest)
      rw [List.map_cons, List.map_cons, Text.join_cons_cons, ← List.map_cons,
        membersLaidOut_nil (next :: rest), memberLaidOut, laidOut_nil value,
        List.append_assoc _ (Text.ofString ",")]
      rfl

end

/-! ### Lines -/

/-- A line and how deep it stands. -/
structure Line where
  depth : Nat
  text : Text

/-- The blanks ahead of a line: two spaces for each level. -/
def margin (depth : Nat) : Text := List.replicate (2 * depth) space

/-- A line as it is printed. -/
def Line.print (line : Line) : Text := margin line.depth ++ line.text

/-- Lines one below the other. -/
def stacked (lines : List Line) : Text := Text.join "\n" (lines.map Line.print)

/-- The lines of a container, of which the lines of the members are given: on one line if there are none,
and otherwise with each bracket on a line of its own. -/
def block (depth : Nat) (ahead after opening closing : Text) : List Line → List Line
  | [] => [⟨depth, ahead ++ (opening ++ closing) ++ after⟩]
  | lines => ⟨depth, ahead ++ opening⟩ :: (lines ++ [⟨depth, closing ++ after⟩])

mutual

/-- The lines of a value at a depth, with a text ahead of the first and one after the last. -/
def outline (figure : ν → Text) (depth : Nat) (ahead after : Text) : Json ν → List Line
  | null => [⟨depth, ahead ++ "null" ++ after⟩]
  | bool true => [⟨depth, ahead ++ "true" ++ after⟩]
  | bool false => [⟨depth, ahead ++ "false" ++ after⟩]
  | number n => [⟨depth, ahead ++ figure n ++ after⟩]
  | string t => [⟨depth, ahead ++ writeString t ++ after⟩]
  | array items => block depth ahead after "[" "]" (outlineItems figure (depth + 1) items)
  | object members =>
    block depth ahead after "\x7b" "\x7d" (outlineMembers figure (depth + 1) members)

/-- The lines of items, with a comma after each but the last. -/
def outlineItems (figure : ν → Text) (depth : Nat) : List (Json ν) → List Line
  | [] => []
  | item :: rest =>
    outline figure depth [] (if rest.isEmpty then [] else ",") item ++ outlineItems figure depth rest

/-- The lines of members, each after its key, with a comma after each but the last. -/
def outlineMembers (figure : ν → Text) (depth : Nat) : List (Text × Json ν) → List Line
  | [] => []
  | (key, value) :: rest =>
    outline figure depth (writeString key ++ ": ") (if rest.isEmpty then [] else ",") value
      ++ outlineMembers figure depth rest

end

/-! ### The lines of what is laid out -/

/-- Two spaces more are the margin of the next depth. -/
theorem margin_append (depth : Nat) : margin depth ++ "  " = margin (depth + 1) := by
  rw [margin, margin, Nat.mul_add_one, List.replicate_add]
  rfl

/-- A container takes at least one line. -/
theorem block_ne_nil (depth : Nat) (ahead after opening closing : Text) (lines : List Line) :
    block depth ahead after opening closing lines ≠ [] := by
  cases lines <;> exact List.cons_ne_nil _ _

/-- A value takes at least one line. -/
theorem outline_ne_nil (depth : Nat) (ahead after : Text) (j : Json ν) :
    outline figure depth ahead after j ≠ [] := by
  cases j with
  | bool b => cases b <;> exact List.cons_ne_nil _ _
  | array _ | object _ => exact block_ne_nil depth ahead after _ _ _
  | null | number _ | string _ => exact List.cons_ne_nil _ _

/-- The lines of members that are laid out as the given parts, at a depth. -/
inductive PartsStacked (depth : Nat) : List Line → List Text → Prop
  | nil : PartsStacked depth [] []
  | more {lines : List Line} {parts : List Text} (hlines : lines ≠ []) (hparts : parts ≠ [])
      (h : stacked lines = margin depth ++ Text.join (",\n" ++ margin depth) parts) :
      PartsStacked depth lines parts

/-- Lines and further lines stand one below the other with a line end between them. -/
theorem stacked_append {first second : List Line} (hfirst : first ≠ []) (hsecond : second ≠ []) :
    stacked (first ++ second) = stacked first ++ ("\n" ++ stacked second) := by
  rw [stacked, List.map_append]
  exact Text.join_append _ (by simpa using hfirst) (by simpa using hsecond)

/-- One line stands by itself. -/
theorem stacked_singleton (line : Line) : stacked [line] = line.print := rfl

/-- Another member goes first, with a comma if others follow. -/
theorem PartsStacked.cons {depth : Nat} {lines : List Line} {parts : List Text}
    (h : PartsStacked depth lines parts) {first : List Line} (hfirst : first ≠ []) {part : Text}
    (hpart : stacked first = margin depth ++ (part ++ if parts.isEmpty then [] else ",")) :
    PartsStacked depth (first ++ lines) (part :: parts) := by
  cases h with
  | nil =>
    refine .more (by simpa using hfirst) (List.cons_ne_nil _ _) ?_
    rw [List.append_nil, hpart, Text.join]
    simp
  | more hlines hparts h =>
    obtain ⟨next, rest, rfl⟩ := List.exists_cons_of_ne_nil hparts
    refine .more (by simp [hfirst]) (List.cons_ne_nil _ _) ?_
    rw [stacked_append hfirst hlines, hpart, h, Text.join_cons_cons]
    simp only [List.isEmpty_cons, Bool.false_eq_true, if_false, List.append_assoc]
    rfl

/-- A container is printed as it is wrapped. -/
theorem stacked_block {depth : Nat} {lines : List Line} {parts : List Text}
    (h : PartsStacked (depth + 1) lines parts) (ahead after opening closing : Text) :
    stacked (block depth ahead after opening closing lines) =
      margin depth ++ (ahead ++
        wrap "  " opening closing (margin (depth + 1)) (margin depth) parts ++ after) := by
  cases h with
  | nil => rfl
  | more hlines hparts h =>
    obtain ⟨line, others, rfl⟩ := List.exists_cons_of_ne_nil hlines
    obtain ⟨part, rest, rfl⟩ := List.exists_cons_of_ne_nil hparts
    show stacked ([⟨depth, ahead ++ opening⟩] ++ (line :: others ++ [⟨depth, closing ++ after⟩])) = _
    rw [stacked_append (List.cons_ne_nil _ _) (by simp),
      stacked_append (List.cons_ne_nil _ _) (List.cons_ne_nil _ _), stacked_singleton,
      stacked_singleton, h, wrap_cons (by decide)]
    simp only [Line.print, List.append_assoc]

mutual

/-- What is laid out is its outline, printed. -/
theorem stacked_outline : (j : Json ν) → ∀ depth ahead after,
    stacked (outline figure depth ahead after j) =
      margin depth ++ (ahead ++ laidOut "  " figure (margin depth) j ++ after)
  | null, _, _, _ | bool true, _, _, _ | bool false, _, _, _ | number _, _, _, _
  | string _, _, _, _ => rfl
  | array items, depth, ahead, after => by
      rw [outline, stacked_block (partsStacked_items items (depth + 1)), laidOut_array, margin_append]
  | object members, depth, ahead, after => by
      rw [outline, stacked_block (partsStacked_members members (depth + 1)), laidOut_object,
        margin_append]

/-- The lines of items are the items as they are laid out, with commas between them. -/
theorem partsStacked_items : (items : List (Json ν)) → ∀ depth,
    PartsStacked depth (outlineItems figure depth items)
      (items.map (laidOut "  " figure (margin depth)))
  | [], _ => .nil
  | item :: rest, depth => by
      refine (partsStacked_items rest depth).cons (outline_ne_nil figure depth _ _ item) ?_
      rw [stacked_outline item, List.isEmpty_map, List.nil_append]

/-- The lines of members are the members as they are laid out, with commas between them. -/
theorem partsStacked_members : (members : List (Text × Json ν)) → ∀ depth,
    PartsStacked depth (outlineMembers figure depth members)
      (members.map (memberLaidOut "  " figure (margin depth)))
  | [], _ => .nil
  | (key, value) :: rest, depth => by
      refine (partsStacked_members rest depth).cons (outline_ne_nil figure depth _ _ value) ?_
      rw [stacked_outline value, List.isEmpty_map]
      rfl

end

/-! ### No line holds another -/

section ControlFree

open Text

variable {figure}

/-- The comma after an item is no control character. -/
theorem isControlFree_comma {α : Type} (rest : List α) :
    isControlFree (if rest.isEmpty then [] else ",") = true := by
  cases rest <;> rfl

/-- The lines of a container have no control characters if its brackets and its parts have none. -/
theorem isControlFree_block {depth : Nat} {ahead after opening closing : Text} {lines : List Line}
    (hahead : isControlFree ahead = true) (hafter : isControlFree after = true)
    (hopening : isControlFree opening = true) (hclosing : isControlFree closing = true)
    (hlines : ∀ line ∈ lines, isControlFree line.text = true) :
    ∀ line ∈ block depth ahead after opening closing lines, isControlFree line.text = true := by
  cases lines with
  | nil => simp [block, hahead, hafter, hopening, hclosing]
  | cons first others =>
    intro line hline
    rcases List.mem_cons.mp hline with rfl | hline
    · simp [hahead, hopening]
    · rcases List.mem_append.mp hline with hline | hline
      · exact hlines line hline
      · simp [List.mem_singleton.mp hline, hafter, hclosing]

mutual

/-- No line of an outline has a control character. -/
theorem isControlFree_outline (hfigure : ∀ n, isControlFree (figure n) = true) :
    (j : Json ν) → ∀ {depth ahead after},
    isControlFree ahead = true → isControlFree after = true →
    ∀ line ∈ outline figure depth ahead after j, isControlFree line.text = true
  | null, _, _, _, hahead, hafter, line, hline | bool true, _, _, _, hahead, hafter, line, hline
  | bool false, _, _, _, hahead, hafter, line, hline => by
      rw [List.mem_singleton.mp hline, isControlFree_append, isControlFree_append, hahead, hafter]
      rfl
  | number n, _, _, _, hahead, hafter, line, hline => by
      rw [List.mem_singleton.mp hline, isControlFree_append, isControlFree_append, hahead, hafter,
        hfigure n]
      rfl
  | string t, _, _, _, hahead, hafter, line, hline => by
      rw [List.mem_singleton.mp hline, isControlFree_append, isControlFree_append, hahead, hafter,
        isControlFree_writeString]
      rfl
  | array items, _, _, _, hahead, hafter, line, hline =>
      isControlFree_block hahead hafter rfl rfl (isControlFree_outlineItems hfigure items) line hline
  | object members, _, _, _, hahead, hafter, line, hline =>
      isControlFree_block hahead hafter rfl rfl (isControlFree_outlineMembers hfigure members) line hline

/-- The lines of items have no control characters if the numbers are written without them. -/
theorem isControlFree_outlineItems (hfigure : ∀ n, isControlFree (figure n) = true) :
    (items : List (Json ν)) → ∀ {depth},
    ∀ line ∈ outlineItems figure depth items, isControlFree line.text = true
  | [], _, _, hline => absurd hline List.not_mem_nil
  | item :: rest, _, line, hline => by
      rw [outlineItems, List.mem_append] at hline
      rcases hline with hline | hline
      · exact isControlFree_outline hfigure item rfl (isControlFree_comma rest) line hline
      · exact isControlFree_outlineItems hfigure rest line hline

/-- The lines of members have no control characters if the numbers are written without them. -/
theorem isControlFree_outlineMembers (hfigure : ∀ n, isControlFree (figure n) = true) :
    (members : List (Text × Json ν)) → ∀ {depth},
    ∀ line ∈ outlineMembers figure depth members, isControlFree line.text = true
  | [], _, _, hline => absurd hline List.not_mem_nil
  | (key, value) :: rest, _, line, hline => by
      have hkey : isControlFree (writeString key ++ ": ") = true := by
        rw [isControlFree_append, isControlFree_writeString]
        rfl
      rw [outlineMembers, List.mem_append] at hline
      rcases hline with hline | hline
      · exact isControlFree_outline hfigure value hkey (isControlFree_comma rest) line hline
      · exact isControlFree_outlineMembers hfigure rest line hline

end

/-- The lines of what is laid out with a gap of two spaces are those of the outline. -/
theorem splitOn_laidOut (hfigure : ∀ n, isControlFree (figure n) = true) (j : Json ν) :
    Text.splitOn (· == lineFeed) (laidOut "  " figure [] j) =
      (outline figure 0 [] [] j).map Line.print := by
  have hstacked := stacked_outline figure j 0 [] []
  rw [List.nil_append, List.append_nil] at hstacked
  have hlaidOut : laidOut "  " figure [] j = stacked (outline figure 0 [] [] j) := hstacked.symm
  rw [hlaidOut]
  refine splitOn_join (by decide) (by simpa using outline_ne_nil figure 0 [] [] j) ?_
  intro t ht c hc
  obtain ⟨line, hline, rfl⟩ := List.mem_map.mp ht
  rw [beq_eq_false_iff_ne]
  rintro rfl
  rw [Line.print, List.mem_append] at hc
  rcases hc with hc | hc
  · exact absurd (List.eq_of_mem_replicate hc) (by decide)
  · exact not_mem_of_isControlFree (isControlFree_outline hfigure j rfl rfl line hline) (by decide) hc

end ControlFree

end Json

end SwiftLens
