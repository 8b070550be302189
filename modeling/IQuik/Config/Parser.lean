import IQuik.Data.Strings
import IQuik.Program.Outcome

namespace IQuik.Config

open IQuik.Data IQuik.Program

/-! # The configuration parser: `cfg.c` -/

/-- `CONFIG_TYPE`, without the mark of the end of a table. -/
inductive ConfigType where
  | strg
  | flag
deriving DecidableEq

/-- `CONFIG`: `data` is the value, the empty string for a flag that is set. -/
structure Entry where
  type : ConfigType
  name : Str
  data : Option Str

abbrev Table := List Entry

def strgEntry (name : String) : Entry := { type := .strg, name := str name, data := none }

def flagEntry (name : String) : Entry := { type := .flag, name := str name, data := none }

def cfOptions : Table :=
  [strgEntry "device", strgEntry "partition", strgEntry "default", strgEntry "timeout",
   strgEntry "message", strgEntry "root", strgEntry "ramdisk", flagEntry "read-only",
   flagEntry "read-write", strgEntry "append", strgEntry "initrd", strgEntry "initrd-size",
   flagEntry "pause-after", strgEntry "pause-message", strgEntry "init-code",
   strgEntry "init-message"]

def cfImage : Table :=
  [strgEntry "image", strgEntry "label", strgEntry "alias", strgEntry "device",
   strgEntry "partition", strgEntry "root", strgEntry "ramdisk", flagEntry "read-only",
   flagEntry "read-write", strgEntry "append", strgEntry "literal", strgEntry "initrd",
   flagEntry "old-kernel", flagEntry "pause-after", strgEntry "pause-message"]

def maxToken : Nat := 200

/-- The messages of `cfg_error`. -/
inductive ConfigError where
  | eofInQuotedString
  | badUseOfBackslash
  | newlineInQuotedString
  | quotedStringTooLong
  | backslashPrecedesEof
  | tokenTooLong
  | syntaxError
  | valueExpectedAtEof
  | syntaxErrorAfter (item : Str)

/-- What the parser asks of `malloc`: a string of `strdup`, or a `struct IMAGES`. -/
inductive Request where
  | token (text : Str)
  | image

/-- The size of a request; a table has 16 entries of 12 bytes. -/
def Request.size : Request → Nat
  | .token text => text.length + 1
  | .image => 196

/-- The globals of `cfg.c`. `curr_table` is the table of the last image, or
`cf_options` while there is none. Characters are `int`s, with -1 for `EOF`. -/
structure Parser where
  currp : Nat
  back : Int
  lastToken : Option Str
  lastItem : Option (Str × Option Str)
  options : Table
  images : List Table
  requests : List Request

/-- A parser that has not been used. -/
def Parser.fresh : Parser where
  currp := 0
  back := 0
  lastToken := none
  lastItem := none
  options := cfOptions
  images := []
  requests := []

abbrev ParseProg := Prog ConfigError Parser

def eof : Int := -1

section Tokens

variable (buff : List UInt8)

/-- `getc`; the buffer has the bytes up to `endp` only. -/
def getc : ParseProg Int := do
  let currp ← Prog.view Parser.currp
  if currp = buff.length then pure eof
  else do
    let c ← Prog.defined buff[currp]?
    Prog.update fun parser => { parser with currp := currp + 1 }
    pure c.toNat

def next : ParseProg Int := do
  let ch ← Prog.view Parser.back
  if ch = 0 then getc buff
  else do
    Prog.update fun parser => { parser with back := 0 }
    pure ch

def again (ch : Int) : ParseProg Unit := Prog.update fun parser => { parser with back := ch }

/-- The first character from here on that is not skipped. -/
def skipWhile (skipped : Int → Bool) : (fuel : Nat) → ParseProg Int
  | 0 => Prog.unfinished
  | fuel + 1 => do
      let ch ← next buff
      if skipped ch then skipWhile skipped fuel else pure ch

/-- A blank between tokens. -/
def isSpace (ch : Int) : Bool := ch = 32 ∨ ch = 9 ∨ ch = 10

/-- A blank at the start of a line that continues a string. -/
def isIndent (ch : Int) : Bool := ch = 32 ∨ ch = 9

/-- Skips blanks and comments; `EOF` also where a comment ends the file. -/
def skipComments : (outer fuel : Nat) → ParseProg Int
  | 0, _ => Prog.unfinished
  | outer + 1, fuel => do
      let ch ← skipWhile buff isSpace fuel
      if ch = eof ∨ ch ≠ 35 then pure ch
      else do
        let ch ← skipWhile buff (fun ch => ch ≠ 10 ∧ ch ≠ eof) fuel
        if ch = eof then pure eof else skipComments outer fuel

/-- `*here++ = ch`, where `stored` is what was stored before. -/
def store (stored : Str) (ch : Int) : ParseProg Str := do
  Prog.demand (stored.length ≤ maxToken)
  pure (stored ++ [(ch % 256).toNat.toUInt8])

/-- `*here = 0; return strdup (buf)`. -/
def finish (stored : Str) : ParseProg Str := do
  Prog.demand (stored.length ≤ maxToken)
  let text := stored.takeWhile (· ≠ 0)
  Prog.update fun parser => { parser with requests := parser.requests ++ [.token text] }
  pure text

/-- The rest of a quoted string. -/
def quoted (inner : Nat) : (fuel : Nat) → (stored : Str) → ParseProg Str
  | 0, _ => Prog.unfinished
  | fuel + 1, stored =>
      if stored.length < maxToken then do
        let ch ← next buff
        if ch = eof then Prog.fail .eofInQuotedString
        else if ch = 34 then finish stored
        else if ch = 92 then do
          let ch ← next buff
          if ch = 34 ∨ ch = 92 then do
            let stored ← store stored ch
            quoted inner fuel stored
          else if ch = 10 then do
            let ch ← skipWhile buff isIndent inner
            if ch = 0 then quoted inner fuel stored
            else do
              again ch
              let stored ← store stored 32
              quoted inner fuel stored
          else if ch = 110 then do
            let stored ← store stored 10
            quoted inner fuel stored
          else Prog.fail .badUseOfBackslash
        else if ch = 10 then Prog.fail .newlineInQuotedString
        else do
          let stored ← store stored ch
          quoted inner fuel stored
      else Prog.fail .quotedStringTooLong

/-- A character that ends a bare token. -/
def endsToken (ch : Int) : Bool := ch = 32 ∨ ch = 9 ∨ ch = 10 ∨ ch = 35 ∨ ch = 61 ∨ ch = eof

/-- The rest of a token without quotes, from the character `ch` on. -/
def bare : (fuel : Nat) → (stored : Str) → (escaped : Bool) → (ch : Int) → ParseProg Str
  | 0, _, _, _ => Prog.unfinished
  | fuel + 1, stored, escaped, ch =>
      if stored.length < maxToken then
        if escaped then
          if ch = eof then Prog.fail .backslashPrecedesEof
          else if ch = 10 then do
            let ch ← next buff
            bare fuel stored false ch
          else do
            let stored ← store stored (if ch = 9 then 32 else ch)
            let ch ← next buff
            bare fuel stored false ch
        else if endsToken ch then do
          again ch
          finish stored
        else if ch = 92 then do
          let ch ← next buff
          bare fuel stored true ch
        else do
          let stored ← store stored ch
          let ch ← next buff
          bare fuel stored false ch
      else Prog.fail .tokenTooLong

/-- The token that starts with `ch`. -/
def tokenAt (fuel : Nat) (ch : Int) : ParseProg Str :=
  if ch = 61 then finish (str "=")
  else if ch = 34 then quoted buff fuel fuel []
  else bare buff fuel [] false ch

/-- A token from the buffer. -/
def readToken (fuel : Nat) : ParseProg (Option Str) := do
  let ch ← skipComments buff fuel fuel
  if ch = eof then pure none
  else do
    let text ← tokenAt buff fuel ch
    pure (some text)

def cfgGetToken (fuel : Nat) : ParseProg (Option Str) := do
  let lastToken ← Prog.view Parser.lastToken
  if lastToken.isSome then do
    Prog.update fun parser => { parser with lastToken := none }
    pure lastToken
  else readToken buff fuel

def cfgReturnToken (token : Str) : ParseProg Unit :=
  Prog.update fun parser => { parser with lastToken := some token }

/-- What follows an item: its value, after an equals sign. -/
def nextValue (fuel : Nat) (item : Str) : ParseProg (Option Str) := do
  let this ← cfgGetToken buff fuel
  match this with
  | none => pure none
  | some this =>
      if this ≠ str "=" then do
        cfgReturnToken this
        pure none
      else do
        let value ← cfgGetToken buff fuel
        match value with
        | none => Prog.fail .valueExpectedAtEof
        | some value =>
            if value = str "=" then Prog.fail (.syntaxErrorAfter item) else pure (some value)

def cfgNext (fuel : Nat) : ParseProg (Option (Str × Option Str)) := do
  let lastItem ← Prog.view Parser.lastItem
  if lastItem.isSome then do
    Prog.update fun parser => { parser with lastItem := none }
    pure lastItem
  else do
    let item ← cfgGetToken buff fuel
    match item with
    | none => pure none
    | some item =>
        if item = str "=" then Prog.fail .syntaxError
        else do
          let value ← nextValue buff fuel item
          pure (some (item, value))

end Tokens

/-! # Items and images -/

/-- What `cfg_set` stores in an entry; a wrong use is only warned of. -/
def Entry.set (entry : Entry) (value : Option Str) : Entry :=
  match value, entry.type with
  | some value, .strg => { entry with data := some value }
  | none, .flag => { entry with data := some [] }
  | _, _ => entry

/-- Sets the first entry of that name, if there is one. -/
def Table.set (item : Str) (value : Option Str) : Table → Option Table
  | [] => none
  | entry :: rest =>
      if equalNoCase entry.name item then some (entry.set value :: rest)
      else (Table.set item value rest).map (entry :: ·)

def Parser.currTable (parser : Parser) : Table := parser.images.getLast?.getD parser.options

def Parser.setTable (parser : Parser) (table : Table) : Parser :=
  if parser.images = [] then { parser with options := table }
  else { parser with images := parser.images.dropLast ++ [table] }

/-- A new image at the end of the list. -/
def newImage : ParseProg Unit := Prog.update fun parser =>
  { parser with requests := parser.requests ++ [.image], images := parser.images ++ [cfImage] }

/-- The loop of `cfg_set` over the current table. -/
def setItem (item : Str) (value : Option Str) : ParseProg Bool := fun parser =>
  match Table.set item value parser.currTable with
  | some table => .ok true (parser.setTable table)
  | none => .ok false { parser with lastItem := some (item, value) }

def cfgSet (item : Str) (value : Option Str) : ParseProg Bool :=
  if equalNoCase item (str "image") then do
    newImage
    setItem item value
  else setItem item value

/-- The loop of `cfg_parse`. -/
def parseItems (buff : List UInt8) (inner : Nat) : (fuel : Nat) → ParseProg Int
  | 0 => Prog.unfinished
  | fuel + 1 => do
      let item ← cfgNext buff inner
      match item with
      | none => pure 0
      | some item => do
          let known ← cfgSet item.1 item.2
          if known then parseItems buff inner fuel else pure (-1)

/-- `cfg_parse` while `malloc` refuses nothing. The `longjmp` of `cfg_error`
comes back with -1. -/
def parseRoomy (buff : List UInt8) (fuel : Nat) : ParseProg Int := do
  Prog.update fun parser => { parser with currp := 0 }
  let result ← Prog.attempt (parseItems buff fuel fuel)
  match result with
  | .ok code => pure code
  | .error _ => pure (-1)

/-- Every request is granted: `grants` has the answers of `malloc`, by the
number of the request and its size. -/
def Granted (grants : Nat → Nat → Bool) (requests : List Request) : Prop :=
  ∀ request ∈ requests.zipIdx, grants request.2 request.1.size = true

instance (grants : Nat → Nat → Bool) (requests : List Request) : Decidable (Granted grants requests) :=
  inferInstanceAs (Decidable (∀ request ∈ requests.zipIdx, _))

/-- `cfg_parse`. `strdup` and `cfg_set` store through what `malloc` returns
without a test, so a parse with a request refused has no defined behaviour. -/
def cfgParse (grants : Nat → Nat → Bool) (buff : List UInt8) (fuel : Nat) : ParseProg Int := fun parser =>
  let outcome := parseRoomy buff fuel parser
  if ∀ after ∈ outcome.state?, Granted grants after.requests then outcome else .undefined

/-! # Lookups -/

def cfgGetStrgI (table : Table) (item : Str) : Option Str :=
  (table.find? fun entry => equalNoCase entry.name item).bind Entry.data

/-- The name of an image in `cfg_get_strg`: its label, or else the file name of
its path, which must be there. -/
def imageName (image : Table) : Option Str :=
  match cfgGetStrgI image (str "label") with
  | some label => some label
  | none => (cfgGetStrgI image (str "image")).map fun path => (afterLastSlash path).getD path

/-- The image is known under this name; `none` when its path is missed. -/
def isCalled (image : Table) (name : Str) : Option Bool :=
  (imageName image).map fun label => label == name || cfgGetStrgI image (str "alias") == some name

/-- The first image of that name, if there is one. -/
def findImage (name : Str) : List Table → Option (Option Table)
  | [] => some none
  | image :: rest => do
      if ← isCalled image name then pure (some image) else findImage name rest

/-- `cfg_get_strg`; no image stands for the global options. The result is
`none` when the path of an image is missed, a null pointer. -/
def cfgGetStrg (parser : Parser) (image : Option Str) (item : Str) : Option (Option Str) :=
  match image with
  | none => some (cfgGetStrgI parser.options item)
  | some name => do
      let found ← findImage name parser.images
      pure (found.bind fun table =>
        (cfgGetStrgI table item).or (cfgGetStrgI parser.options item))

def cfgGetFlag (parser : Parser) (image : Option Str) (item : Str) : Option Bool :=
  (cfgGetStrg parser image item).map Option.isSome

end IQuik.Config
