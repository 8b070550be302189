import IQuik.Config.Items

namespace IQuik.Config

open IQuik.Data IQuik.Program

/-! # One string as a token -/

/-- A character that needs a backslash in front of it without quotes. -/
def isSpecial (c : UInt8) : Bool := c = 32 ∨ c = 35 ∨ c = 61 ∨ c = 34 ∨ c = 92

def bareByte (c : UInt8) : Str := if isSpecial c then [92, c] else [c]

/-- A string as it is written in quotes, or without. -/
inductive Written (s : Str) : Str → Prop where
  | quoted : Written s (34 :: quote s)
  | bare (some' : s ≠ []) (plain : ∀ c ∈ s, c ≠ 9 ∧ c ≠ 10) : Written s (s.flatMap bareByte)

/-- What may follow a token: a space, a newline, a comment, or nothing. -/
def Follows (rest : List UInt8) : Prop := rest = [] ∨ ∃ stop behind, rest = stop :: behind ∧ (stop = 32 ∨ stop = 10 ∨ stop = 35)

/-- The reader is right in front of `rest`. Behind the last token, the end of the
file may have been given back. -/
structure Stands (buff : List UInt8) (start parser : Parser) (rest : List UInt8) : Prop where
  same : parser = { start with currp := parser.currp, back := parser.back }
  ahead : parser.Ahead buff rest ∨ rest = [] ∧ parser.back = eof ∧ parser.currp = buff.length

/-- A call of `cfg_get_token`; `strdup` stores through what `malloc` returns
without a test. -/
def getTokenIn (grants : Nat → Nat → Bool) (buff : List UInt8) (fuel : Nat) : ParseProg (Option Str) := fun parser =>
  let outcome := cfgGetToken buff fuel parser
  if ∀ after ∈ outcome.state?, Granted grants after.requests then outcome else .undefined

/-- `s` is returned, or refused with an error if it is too long. -/
def TokenExact (grants : Nat → Nat → Bool) (buff : List UInt8) (fuel : Nat) (parser : Parser) (s : Str)
    (rest : List UInt8) : Prop :=
  (s.length < maxToken ∧ ∃ after, getTokenIn grants buff fuel parser = .ok (some s) after ∧
    Stands buff (parser.ask [.token s]) after rest) ∨
  (maxToken ≤ s.length ∧ ∃ code after, getTokenIn grants buff fuel parser = .error code after)

variable {buff : List UInt8} {start parser : Parser} {rest : List UInt8} {c : UInt8} {fuel : Nat} {stored s : Str}

theorem Comes.stands (comes : Comes buff start parser rest) : Stands buff start parser rest :=
  ⟨comes.same, .inl comes.ahead⟩

theorem Comes.requests (comes : Comes buff start parser rest) : parser.requests = start.requests := by
  rw [comes.same]

/-! ## In quotes -/

theorem quoted_long (inner : Nat) (full : stored.length ≤ maxToken) (long : maxToken ≤ stored.length + s.length)
    (enough : s.length < fuel) (comes : Comes buff start parser (quote s ++ rest)) :
    ∃ after, quoted buff inner fuel stored parser = .error .quotedStringTooLong after ∧
      after.requests = start.requests := by
  induction s generalizing stored parser fuel with
  | nil =>
      obtain ⟨fuel, rfl⟩ : ∃ less, fuel = less + 1 := ⟨fuel - 1, by simp at enough; omega⟩
      rw [List.length_nil, Nat.add_zero] at long
      rw [quoted, if_neg (Nat.not_lt.mpr long)]
      exact ⟨parser, rfl, comes.requests⟩
  | cons c s ih =>
      rw [List.length_cons] at long enough
      obtain ⟨fuel, rfl⟩ : ∃ less, fuel = less + 1 := ⟨fuel - 1, by omega⟩
      by_cases room : stored.length < maxToken
      · have written : quote (c :: s) ++ rest = escapeByte c ++ (quote s ++ rest) := by
          simp [quote]
        have length : (stored ++ [c]).length = stored.length + 1 := List.length_append
        rw [written] at comes
        obtain ⟨middle, step, goes⟩ := quoted_byte inner fuel room comes
        rw [step]
        exact ih (by omega) (by omega) (by omega) goes
      · rw [quoted, if_neg room]
        exact ⟨parser, rfl, comes.requests⟩

/-! ## Without quotes -/

/-- The loop, before it has read the next character. -/
def bareNext (buff : List UInt8) (fuel : Nat) (stored : Str) : ParseProg Str :=
  next buff >>= fun ch => bare buff fuel stored false ch

theorem bareByte_plain (nul : c ≠ 0) (plain : c ≠ 9 ∧ c ≠ 10) (other : isSpecial c = false) : PlainByte c := by
  simp only [isSpecial, decide_eq_false_iff_not, not_or] at other
  obtain ⟨space, comment, equals, quote', backslash⟩ := other
  have real : ¬(c.toNat : Int) = eof := by
    rw [eof]
    omega
  refine ⟨nul, ?_, backslash, quote'⟩
  rw [endsToken, decide_eq_false_iff_not]
  rintro (same | same | same | same | same | same)
  · exact byte_ne space same
  · exact byte_ne plain.1 same
  · exact byte_ne plain.2 same
  · exact byte_ne comment same
  · exact byte_ne equals same
  · exact real same

/-- One character, with the backslash in front of it, is stored. -/
theorem bareNext_byte (fuel : Nat) (room : stored.length < maxToken) (nul : c ≠ 0) (plain : c ≠ 9 ∧ c ≠ 10)
    (comes : Comes buff start parser (bareByte c ++ rest)) :
    ∃ middle, bareNext buff (fuel + (bareByte c).length) stored parser = bareNext buff fuel (stored ++ [c]) middle ∧
      Comes buff start middle rest := by
  rw [bareByte] at comes ⊢
  by_cases special : isSpecial c = true
  · rw [if_pos special] at comes ⊢
    obtain ⟨middle, run, goes, -⟩ := next_comes comes
    obtain ⟨after, follows, final, -⟩ := next_comes goes
    have real : ¬(c.toNat : Int) = eof := by
      rw [eof]
      omega
    have tab : ¬(c.toNat : Int) = 9 := byte_ne plain.1
    have line : ¬(c.toNat : Int) = 10 := byte_ne plain.2
    refine ⟨after, ?_, final⟩
    rw [bareNext, Prog.bind_run_ok run, show fuel + ([92, c] : Str).length = fuel + 1 + 1 from rfl, bare, if_pos room,
      if_neg Bool.false_ne_true, if_neg (by decide), if_pos (by decide), Prog.bind_run_ok follows, bare, if_pos room,
      if_pos rfl, if_neg real, if_neg line, if_neg tab, Prog.bind_run_ok (store_byte room c)]
    rfl
  · rw [if_neg special] at comes ⊢
    obtain ⟨middle, run, goes, -⟩ := next_comes comes
    refine ⟨middle, ?_, goes⟩
    rw [bareNext, Prog.bind_run_ok run, List.length_singleton,
      bare_byte (bareByte_plain nul plain (Bool.eq_false_iff.mpr special)) room]
    rfl

/-- The token ends, and what ends it is given back. -/
theorem bareNext_end (room : stored.length < maxToken) (noNul : ∀ c ∈ stored, c ≠ 0) (follows : Follows rest)
    (comes : Comes buff start parser rest) :
    ∃ after, bareNext buff (fuel + 1) stored parser = .ok stored after ∧
      Stands buff (start.ask [.token stored]) after rest := by
  obtain rfl | ⟨stop, behind, rfl, mark⟩ := follows
  · have whole : stored.takeWhile (· ≠ 0) = stored :=
      List.takeWhile_eq_self_iff.mpr fun c mem => decide_eq_true (noNul c mem)
    have ended : parser.currp = buff.length := by
      obtain ⟨-, ahead⟩ | ⟨other, -, -, ahead⟩ := comes.ahead
      · exact Nat.le_antisymm comes.inside (List.drop_eq_nil_iff.mp ahead)
      · cases ahead
    have given : again eof parser = .ok () { parser with back := eof } := rfl
    rw [bareNext, Prog.bind_run_ok (next_end comes), bare, if_pos room, if_neg Bool.false_ne_true, if_pos (by decide),
      Prog.bind_run_ok given, finish, Prog.demand_pos (Nat.le_of_lt room), whole]
    refine ⟨_, rfl, ?_, .inr ⟨rfl, rfl, ended⟩⟩
    rw [comes.same]
    rfl
  · have stops : endsToken stop.toNat = true ∧ stop ≠ 0 := by
      obtain rfl | rfl | rfl := mark
      · decide
      · decide
      · decide
    obtain ⟨middle, run, goes, back⟩ := next_comes comes
    obtain ⟨given, gives, front⟩ := again_comes goes back stops.2
    obtain ⟨after, finishes, final⟩ := finish_comes noNul room front
    refine ⟨after, ?_, final.stands⟩
    rw [bareNext, Prog.bind_run_ok run, bare, if_pos room, if_neg Bool.false_ne_true, if_pos stops.1,
      Prog.bind_run_ok gives, finishes]

theorem bareNext_full (full : maxToken ≤ stored.length) (comes : Comes buff start parser rest) :
    ∃ after, bareNext buff (fuel + 1) stored parser = .error .tokenTooLong after ∧
      after.requests = start.requests := by
  cases rest with
  | nil =>
      rw [bareNext, Prog.bind_run_ok (next_end comes), bare, if_neg (Nat.not_lt.mpr full)]
      exact ⟨parser, rfl, comes.requests⟩
  | cons c rest =>
      obtain ⟨middle, run, goes, -⟩ := next_comes comes
      rw [bareNext, Prog.bind_run_ok run, bare, if_neg (Nat.not_lt.mpr full)]
      exact ⟨middle, rfl, goes.requests⟩

theorem bareNext_comes (noNul : ∀ c ∈ stored ++ s, c ≠ 0) (plain : ∀ c ∈ s, c ≠ 9 ∧ c ≠ 10)
    (room : (stored ++ s).length < maxToken) (follows : Follows rest) (enough : (s.flatMap bareByte).length < fuel)
    (comes : Comes buff start parser (s.flatMap bareByte ++ rest)) :
    ∃ after, bareNext buff fuel stored parser = .ok (stored ++ s) after ∧
      Stands buff (start.ask [.token (stored ++ s)]) after rest := by
  induction s generalizing stored parser fuel with
  | nil =>
      obtain ⟨fuel, rfl⟩ : ∃ less, fuel = less + 1 := ⟨fuel - 1, by simp at enough; omega⟩
      rw [List.append_nil] at noNul room ⊢
      exact bareNext_end room noNul follows comes
  | cons c s ih =>
      rw [List.flatMap_cons, List.length_append] at enough
      rw [List.flatMap_cons, List.append_assoc] at comes
      obtain ⟨fuel, rfl⟩ : ∃ less, fuel = less + (bareByte c).length := ⟨fuel - (bareByte c).length, by omega⟩
      have here : stored.length < maxToken := by
        rw [List.length_append, List.length_cons] at room
        omega
      have nul : c ≠ 0 := noNul c (List.mem_append_right _ List.mem_cons_self)
      obtain ⟨middle, step, goes⟩ := bareNext_byte fuel here nul (plain c List.mem_cons_self) comes
      rw [List.append_cons] at noNul room ⊢
      rw [step]
      exact ih noNul (fun d mem => plain d (List.mem_cons_of_mem _ mem)) room (by omega) goes

theorem bareNext_long (noNul : ∀ c ∈ s, c ≠ 0) (plain : ∀ c ∈ s, c ≠ 9 ∧ c ≠ 10)
    (long : maxToken ≤ stored.length + s.length) (enough : (s.flatMap bareByte).length < fuel)
    (comes : Comes buff start parser (s.flatMap bareByte ++ rest)) :
    ∃ after, bareNext buff fuel stored parser = .error .tokenTooLong after ∧ after.requests = start.requests := by
  induction s generalizing stored parser fuel with
  | nil =>
      obtain ⟨fuel, rfl⟩ : ∃ less, fuel = less + 1 := ⟨fuel - 1, by simp at enough; omega⟩
      rw [List.length_nil, Nat.add_zero] at long
      exact bareNext_full long comes
  | cons c s ih =>
      by_cases room : stored.length < maxToken
      · rw [List.flatMap_cons, List.length_append] at enough
        rw [List.flatMap_cons, List.append_assoc] at comes
        rw [List.length_cons] at long
        obtain ⟨fuel, rfl⟩ : ∃ less, fuel = less + (bareByte c).length := ⟨fuel - (bareByte c).length, by omega⟩
        have length : (stored ++ [c]).length = stored.length + 1 := List.length_append
        obtain ⟨middle, step, goes⟩ := bareNext_byte fuel room (noNul c List.mem_cons_self)
          (plain c List.mem_cons_self) comes
        rw [step]
        exact ih (fun d mem => noNul d (List.mem_cons_of_mem _ mem))
          (fun d mem => plain d (List.mem_cons_of_mem _ mem)) (by omega) (by omega) goes
      · obtain ⟨fuel, rfl⟩ : ∃ less, fuel = less + 1 := ⟨fuel - 1, by omega⟩
        exact bareNext_full (Nat.not_lt.mp room) comes

/-! ## From the start of the token -/

/-- No blank and no comment stands in front of the token. -/
theorem readToken_now {middle : Parser} (run : next buff parser = .ok (c.toNat : Int) middle)
    (token : isSpace c.toNat = false) (word : c ≠ 35) :
    readToken buff (fuel + 1) parser =
      (tokenAt buff (fuel + 1) c.toNat >>= fun text => pure (some text)) middle := by
  have other : ¬(c.toNat : Int) = 35 := byte_ne word
  have real : ¬(c.toNat : Int) = eof := by
    rw [eof]
    omega
  have stays : skipWhile buff isSpace (fuel + 1) parser = .ok (c.toNat : Int) middle := by
    rw [skipWhile, Prog.bind_run_ok run, if_neg (by simp [token])]
    rfl
  have skips : skipComments buff (fuel + 1) (fuel + 1) parser = .ok (c.toNat : Int) middle := by
    rw [skipComments, Prog.bind_run_ok stays, if_pos (.inr other)]
    rfl
  rw [readToken, Prog.bind_run_ok skips, if_neg real]

theorem bareByte_head (nul : c ≠ 0) (plain : c ≠ 9 ∧ c ≠ 10) :
    ∃ first more, bareByte c = first :: more ∧ isSpace first.toNat = false ∧ first ≠ 35 ∧
      ¬(first.toNat : Int) = 61 ∧ ¬(first.toNat : Int) = 34 := by
  rw [bareByte]
  by_cases special : isSpecial c = true
  · rw [if_pos special]
    exact ⟨92, [c], rfl, by decide, by decide, by decide, by decide⟩
  · rw [if_neg special]
    exact ⟨c, [], rfl, (bareByte_plain nul plain (Bool.eq_false_iff.mpr special)).token⟩

theorem readToken_bare (some' : s ≠ []) (noNul : ∀ c ∈ s, c ≠ 0) (plain : ∀ c ∈ s, c ≠ 9 ∧ c ≠ 10)
    (comes : Comes buff start parser (s.flatMap bareByte ++ rest)) :
    readToken buff (fuel + 1) parser = (bareNext buff (fuel + 1) [] >>= fun text => pure (some text)) parser := by
  cases s with
  | nil => exact absurd rfl some'
  | cons c s =>
      obtain ⟨first, more, written, space, comment, equals, quote'⟩ :=
        bareByte_head (noNul c List.mem_cons_self) (plain c List.mem_cons_self)
      rw [List.flatMap_cons, written] at comes
      obtain ⟨middle, run, -⟩ := next_comes comes
      rw [readToken_now run space comment, tokenAt, if_neg equals, if_neg quote', bareNext, Prog.bind_assoc,
        Prog.bind_run_ok run]

variable {text : List UInt8}

/-- A string that fits is returned, and what follows it is still ahead. -/
theorem readToken_short (written : Written s text) (noNul : ∀ c ∈ s, c ≠ 0) (short : s.length < maxToken)
    (follows : Follows rest) (enough : buff.length + 1 < fuel) (comes : Comes buff start parser (text ++ rest)) :
    ∃ after, readToken buff fuel parser = .ok (some s) after ∧
      Stands buff (start.ask [.token s]) after rest := by
  cases written with
  | quoted =>
      obtain ⟨after, run, final⟩ := readToken_quote ⟨noNul, short⟩ enough comes
      exact ⟨after, run, final.stands⟩
  | bare some' plain =>
      have length := comes.length
      rw [List.length_append] at length
      obtain ⟨fuel, rfl⟩ : ∃ less, fuel = less + 1 := ⟨fuel - 1, by omega⟩
      obtain ⟨after, run, final⟩ := bareNext_comes (show ∀ c ∈ [] ++ s, c ≠ 0 from noNul) plain short follows
        (show (s.flatMap bareByte).length < fuel + 1 by omega) comes
      refine ⟨after, ?_, final⟩
      rw [readToken_bare some' noNul plain comes, Prog.bind_run_ok run]
      rfl

/-- A string that does not fit is refused, and nothing is copied. -/
theorem readToken_long (written : Written s text) (noNul : ∀ c ∈ s, c ≠ 0) (long : maxToken ≤ s.length)
    (enough : buff.length + 1 < fuel) (comes : Comes buff start parser (text ++ rest)) :
    ∃ code after, readToken buff fuel parser = .error code after ∧ after.requests = start.requests := by
  have length := comes.length
  rw [List.length_append] at length
  obtain ⟨fuel, rfl⟩ : ∃ less, fuel = less + 1 := ⟨fuel - 1, by omega⟩
  cases written with
  | quoted =>
      rw [List.length_cons] at length
      have inside : s.length ≤ (quote s).length := quote_length s
      obtain ⟨middle, run, goes⟩ := readToken_comes noBlank (by decide) (by decide) (Nat.succ_pos fuel) comes
      obtain ⟨after, fails, same⟩ := quoted_long (fuel + 1) (Nat.zero_le _)
        (show maxToken ≤ ([] : Str).length + s.length by rwa [List.length_nil, Nat.zero_add])
        (show s.length < fuel + 1 by omega) goes
      refine ⟨.quotedStringTooLong, after, ?_, same⟩
      rw [run, tokenAt, if_neg (by decide), if_pos (by decide), Prog.bind_run_error fails]
  | bare some' plain =>
      obtain ⟨after, fails, same⟩ := bareNext_long noNul plain
        (show maxToken ≤ ([] : Str).length + s.length by rwa [List.length_nil, Nat.zero_add])
        (show (s.flatMap bareByte).length < fuel + 1 by omega) comes
      refine ⟨.tokenTooLong, after, ?_, same⟩
      rw [readToken_bare some' noNul plain comes, Prog.bind_run_error fails]

/-! ## With `malloc` -/

variable {grants : Nat → Nat → Bool} {requests : List Request}

theorem granted_snoc (granted : Granted grants requests) (request : Request) :
    Granted grants (requests ++ [request]) ↔ grants requests.length request.size = true := by
  rw [Granted, List.zipIdx_append, List.forall_mem_append, Nat.zero_add]
  constructor
  · intro both
    exact both.2 (request, requests.length) List.mem_cons_self
  · intro last
    exact ⟨granted, List.forall_mem_singleton.mpr last⟩

theorem getTokenIn_ok (grants : Nat → Nat → Bool) {value : Option Str} {after : Parser}
    (run : cfgGetToken buff fuel parser = .ok value after) :
    getTokenIn grants buff fuel parser = if Granted grants after.requests then .ok value after else .undefined := by
  simp only [getTokenIn, run, Outcome.state?, Option.mem_def, Option.some.injEq, forall_eq']

theorem getTokenIn_error (grants : Nat → Nat → Bool) {code : ConfigError} {after : Parser}
    (run : cfgGetToken buff fuel parser = .error code after) :
    getTokenIn grants buff fuel parser =
      if Granted grants after.requests then .error code after else .undefined := by
  simp only [getTokenIn, run, Outcome.state?, Option.mem_def, Option.some.injEq, forall_eq']

/-- A string is read back as it was written, up to the exact limit, unless its copy gets no
memory. -/
theorem tokens_exact_iff (grants : Nat → Nat → Bool) (buff : List UInt8) (fuel : Nat) (parser : Parser) (s : Str)
    (text rest : List UInt8) (noNul : ∀ c ∈ s, c ≠ 0) (written : Written s text) (follows : Follows rest)
    (nothing : parser.lastToken = none) (inside : parser.currp ≤ buff.length)
    (ahead : parser.Ahead buff (text ++ rest)) (granted : Granted grants parser.requests)
    (enough : buff.length + 1 < fuel) :
    TokenExact grants buff fuel parser s rest ↔
      (s.length < maxToken → grants parser.requests.length (s.length + 1) = true) := by
  have comes : Comes buff parser parser (text ++ rest) := ⟨rfl, inside, ahead⟩
  by_cases short : s.length < maxToken
  · obtain ⟨after, run, final⟩ := readToken_short written noNul short follows enough comes
    have asked : after.requests = parser.requests ++ [.token s] := by
      rw [final.same]
      rfl
    have reads := getTokenIn_ok grants ((cfgGetToken_none nothing).trans run)
    rw [asked] at reads
    constructor
    · rintro (⟨-, other, returned, -⟩ | ⟨long, -⟩) -
      · by_contra refused
        rw [reads, if_neg fun all => refused ((granted_snoc granted (.token s)).mp all)] at returned
        cases returned
      · exact absurd long (Nat.not_le.mpr short)
    · intro grant
      refine .inl ⟨short, after, ?_, final⟩
      rw [reads, if_pos ((granted_snoc granted (.token s)).mpr (grant short))]
  · have long : maxToken ≤ s.length := Nat.not_lt.mp short
    obtain ⟨code, after, run, same⟩ := readToken_long written noNul long enough comes
    have fails := getTokenIn_error grants ((cfgGetToken_none nothing).trans run)
    refine ⟨fun _ fits => absurd fits short, fun _ => .inr ⟨long, code, after, ?_⟩⟩
    rw [fails, same, if_pos granted]

/-- `a#b` in quotes, at the end of the file. -/
theorem tokens_exact_quoted : TokenExact (fun _ _ => true) (str "\"a#b\"") 8 .fresh (str "a#b") [] :=
  (tokens_exact_iff _ _ 8 .fresh (str "a#b") _ [] (show Valued (str "a#b") by decide).noNul .quoted (.inl rfl) rfl
    (Nat.zero_le _) (.inl ⟨rfl, rfl⟩) (fun _ _ => rfl) (by decide)).mpr fun _ => rfl

/-- The token `a` without memory for its copy. -/
theorem tokens_not_exact : ¬TokenExact (fun _ _ => false) (str "a") 3 .fresh (str "a") [] := by
  rintro (⟨-, after, returned, -⟩ | ⟨long, -⟩)
  · cases returned
  · exact absurd long (by decide)

end IQuik.Config
