/-! # Transition tokens

A transition is written as a single word, in one of two forms.  In the compact form it is three
characters, `0a1`: the state it leaves, the symbol, the state it enters.  In the delimited form it
is `q0,a,q1`, where the names may have any length but may not contain a comma; the symbol is what
stands between the first and the last comma, so it may itself be a comma. -/

namespace Acceptor

/-- An edge between two named states. -/
structure Transition where
  source : String
  symbol : Char
  target : String
deriving DecidableEq, Repr

namespace Transition

/-- Reads the compact form. -/
def compact? (token : String) : Option Transition :=
  match token.toList with
  | [p, c, q] => some ⟨String.singleton p, c, String.singleton q⟩
  | _ => none

/-- Reads the delimited form. -/
def delimited? (token : String) : Option Transition :=
  match token.toList.span (· != ',') with
  | (_, []) => none
  | (source, _ :: rest) =>
    match rest.reverse.span (· != ',') with
    | (target, [_, symbol]) =>
      if source.isEmpty || target.isEmpty then none
      else some ⟨String.ofList source, symbol, String.ofList target.reverse⟩
    | _ => none

/-- Reads either form. -/
def read? (token : String) : Option Transition := delimited? token <|> compact? token

end Transition

end Acceptor
