-- Globs: name patterns with wildcards, read into shapes that a path either has or has not.
import LogSweep.Text

namespace LogSweep

/-! ## Shapes -/

/-- A set of texts, over bytes. -/
inductive GlobShape
  /-- No text at all. -/
  | nothing
  /-- The empty text. -/
  | blank
  /-- One byte in the ranges, or outside of them. -/
  | one (negated : Bool) (ranges : List (UInt8 × UInt8))
  | both (first second : GlobShape)
  | either (first second : GlobShape)
  | many (each : GlobShape)
  deriving DecidableEq, Repr

namespace GlobShape

/-- One shape after another. -/
def andThen : GlobShape → GlobShape → GlobShape
  | .nothing, _ => .nothing
  | _, .nothing => .nothing
  | .blank, b => b
  | a, .blank => a
  | a, b => .both a b

def orElse : GlobShape → GlobShape → GlobShape
  | .nothing, b => b
  | a, .nothing => a
  | a, b => .either a b

/-- Whether the empty text has the shape. -/
def takesBlank : GlobShape → Bool
  | .nothing => false
  | .blank => true
  | .one _ _ => false
  | .both a b => a.takesBlank && b.takesBlank
  | .either a b => a.takesBlank || b.takesBlank
  | .many _ => true

/-- What may follow a byte. -/
def after (x : UInt8) : GlobShape → GlobShape
  | .nothing => .nothing
  | .blank => .nothing
  | .one negated ranges =>
    if (ranges.any (fun r => r.1 ≤ x && x ≤ r.2)) != negated then .blank else .nothing
  | .both a b =>
    if a.takesBlank then ((a.after x).andThen b).orElse (b.after x) else (a.after x).andThen b
  | .either a b => (a.after x).orElse (b.after x)
  | .many a => (a.after x).andThen (.many a)

/-- Whether a text has the shape. -/
def accepts (s : GlobShape) (text : List UInt8) : Bool :=
  (text.foldl (fun s x => s.after x) s).takesBlank

/-- The bytes of a character, in order. -/
def ofChar (c : Char) : GlobShape :=
  (Text.bytes [c]).foldr (fun x s => andThen (.one false [(x, x)]) s) .blank

def slash : GlobShape := ofChar '/'

/-- Any byte but a slash. -/
def nonSlash : GlobShape := .one true [(47, 47)]

/-- Any text. -/
def anything : GlobShape := .many (.one true [])

/-- The byte ranges between two characters: all that their bytes span when they are written side
by side, with the range between the last byte of the one and the first of the other. -/
def byteRanges (low high : Char) : List (UInt8 × UInt8) :=
  let a := Text.bytes [low]
  let b := Text.bytes [high]
  let alone := fun (x : UInt8) => (x, x)
  if low = high then a.map alone
  else
    a.dropLast.map alone ++
      (match a.getLast?, b.head? with
        | some x, some y => [(x, y)]
        | _, _ => []) ++
      b.tail.map alone

end GlobShape

/-! ## Tokens -/

/-- What a glob is made of. -/
inductive GlobToken
  | literal (c : Char)
  /-- One byte of a name. -/
  | any
  /-- Any part of a name. -/
  | star
  /-- Any directories above, or none. -/
  | leading
  /-- All that is below. -/
  | trailing
  /-- Any directories between, or none. -/
  | between
  | oneOf (negated : Bool) (ranges : List (Char × Char))
  | choice (branches : List (List GlobToken))

namespace GlobToken

mutual

def shape : GlobToken → GlobShape
  | .literal c => .ofChar c
  | .any => .nonSlash
  | .star => .many .nonSlash
  | .leading => .orElse (.orElse .blank .slash) (.andThen .anything .slash)
  | .trailing => .andThen .slash .anything
  | .between => .orElse .slash (.andThen .slash (.andThen .anything .slash))
  | .oneOf negated ranges => .one negated (ranges.flatMap (fun r => GlobShape.byteRanges r.1 r.2))
  | .choice branches =>
    let s := shapeOfAny branches
    if s = .nothing then .blank else s

def shapeOfAll : List GlobToken → GlobShape
  | [] => .blank
  | t :: ts => .andThen t.shape (shapeOfAll ts)

/-- A branch that is blank is no branch. -/
def shapeOfAny : List (List GlobToken) → GlobShape
  | [] => .nothing
  | b :: bs =>
    let s := shapeOfAll b
    if s = .blank then shapeOfAny bs else .orElse s (shapeOfAny bs)

end

end GlobToken

/-! ## Reading -/

/-- A glob that is being read: the branches still open, the latest first and each with its latest
token first, and how many of them stood before each open choice. -/
structure GlobDraft where
  branches : List (List GlobToken)
  choices : List Nat
  /-- A bracket without its partner was met, and no later one can have a partner either. -/
  unclosed : Bool

namespace GlobDraft

def empty : GlobDraft := ⟨[[]], [], false⟩

def push (d : GlobDraft) (token : GlobToken) : GlobDraft :=
  match d.branches with
  | b :: bs => { d with branches := (token :: b) :: bs }
  | [] => d

/-- Opens a branch. -/
def branch (d : GlobDraft) : GlobDraft := { d with branches := [] :: d.branches }

/-- Closes the latest choice, if one is open. -/
def close? (d : GlobDraft) : Option GlobDraft :=
  match d.choices with
  | [] => none
  | n :: choices =>
    let count := d.branches.length - n
    let closed := ((d.branches.take count).map List.reverse).reverse
    some (push { d with branches := d.branches.drop count, choices } (.choice closed))

/-- Takes two stars at their face value. -/
def twoStars (d : GlobDraft) : GlobDraft := (d.push .star).push .star

/-- Two stars between slashes stand for directories, and take the place of what is before them. -/
def spread (d : GlobDraft) (atEnd : Bool) : GlobDraft :=
  match d.branches with
  | (.leading :: _) :: _ => d
  | (.trailing :: _) :: _ => d
  | (_ :: b) :: bs =>
    { d with branches := ((if atEnd then .trailing else .between) :: b) :: bs }
  | _ => d

end GlobDraft

/-- A class of characters that is being read. -/
structure ClassDraft where
  ranges : List (Char × Char)
  isFirst : Bool
  inRange : Bool

/-- Reads a class up to its closing bracket. Fails on a range that runs backwards, and gives
nothing when the bracket never comes. -/
def readClass : ClassDraft → List Char →
    Except Unit (Option (List (Char × Char) × List Char))
  | _, [] => .ok none
  | d, c :: cs =>
    if c = ']' && !d.isFirst then
      let ranges := if d.inRange then ('-', '-') :: d.ranges else d.ranges
      .ok (some (ranges.reverse, cs))
    else if d.inRange then
      match d.ranges with
      | (low, _) :: rest =>
        if c < low then .error () else readClass ⟨(low, c) :: rest, false, false⟩ cs
      | [] => readClass ⟨[(c, c)], false, false⟩ cs
    else if c = '-' && !d.isFirst then readClass { d with inRange := true } cs
    else readClass ⟨(c, c) :: d.ranges, false, false⟩ cs

/-- Reads a class after its opening bracket. -/
def readClassBody (cs : List Char) :
    Except Unit (Option (Bool × List (Char × Char) × List Char)) :=
  let finish := fun (negated : Bool) (rest : List Char) =>
    (readClass ⟨[], true, false⟩ rest).map (fun r => r.map (fun k => (negated, k.1, k.2)))
  match cs with
  | '!' :: rest => finish true rest
  | '^' :: rest => finish true rest
  | rest => finish false rest

/-- Reads the rest of a glob, given the character before it. -/
def readGlob : Nat → GlobDraft → Option Char → List Char → Option GlobDraft
  | _, d, _, [] => some d
  | 0, _, _, _ :: _ => none
  | n + 1, d, before, c :: cs =>
    match c with
    | '?' => readGlob n (d.push .any) (some c) cs
    | '*' =>
      match cs with
      | '*' :: rest =>
        let plain := fun (_ : Unit) => readGlob n d.twoStars (some '*') rest
        if (d.branches.head?.getD []).isEmpty then
          match rest with
          | [] => readGlob n (d.push .leading) (some '*') []
          | '/' :: rest' => readGlob n (d.push .leading) (some '/') rest'
          | _ => plain ()
        else if before ≠ some '/' then plain ()
        else
          match rest with
          | [] => readGlob n (d.spread true) (some '*') []
          | '/' :: rest' => readGlob n (d.spread false) (some '/') rest'
          | e :: _ =>
            if (e = ',' || e = '}') && 2 ≤ d.branches.length then
              readGlob n (d.spread true) (some '*') rest
            else plain ()
      | _ => readGlob n (d.push .star) (some c) cs
    | '[' =>
      if d.unclosed then readGlob n (d.push (.literal c)) (some c) cs
      else
        match readClassBody cs with
        | .error () => none
        | .ok none => readGlob n (push { d with unclosed := true } c) (some c) cs
        | .ok (some (negated, ranges, rest)) =>
          readGlob n (d.push (.oneOf negated ranges)) (some ']') rest
    | '{' =>
      readGlob n { d.branch with choices := d.branches.length :: d.choices } (some c) cs
    | '}' =>
      match d.close? with
      | some closed => readGlob n closed (some c) cs
      | none => none
    | ',' => readGlob n (if d.choices.isEmpty then push d c else d.branch) (some c) cs
    | '\\' =>
      match cs with
      | e :: rest => readGlob n (push d e) (some e) rest
      | [] => none
    | _ => readGlob n (push d c) (some c) cs
where
  push (d : GlobDraft) (c : Char) : GlobDraft := d.push (.literal c)

/-- The shape of a glob. Two stars alone stand for any text. -/
def Glob.shape? (text : List Char) : Option GlobShape :=
  match readGlob text.length .empty none text with
  | some d =>
    match d.branches, d.choices with
    | [[.leading]], [] => some .anything
    | [tokens], [] => some (GlobToken.shapeOfAll tokens.reverse)
    | _, _ => none
  | none => none

end LogSweep
