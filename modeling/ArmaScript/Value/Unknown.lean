import ArmaScript.Value.Store

/-!
# Unknown values

A value of which only the kind is known. Not every kind has one: a word of the language, a namespace
and most helpers need parts that cannot be made up.
-/

namespace ArmaScript

/-- Whether values of a kind are made by the game engine only. -/
def Kind.isEngine : Kind → Bool
  | .config | .object | .script | .control | .group | .display | .side | .task | .location
  | .netObject | .diaryReport | .teamMember => true
  | _ => false

namespace Stored

def undefinedCode : Stored Value := do
  let id ← fresh
  return .code id false [.atom (← fresh) (.mark "\x7b"), .atom (← fresh) (.mark "\x7d")]

def unknown (k : Kind) : Stored Value :=
  match k with
  | .boolean => boolean none
  | .string => atom (.string none)
  | .number => atom (.number none)
  | .nothing => atom .nothing
  | .anything => atom .anything
  | .array => undefinedArray
  | .code => undefinedCode
  | .forHelper => do return .forOf (← fresh) (← atom (.string none)) none none (← number (.int 1))
  | .ifHelper => do return .ifOf (← fresh) (← boolean none)
  | .elseHelper => throw .violation
  | k => if k.isEngine then atom (.engine k) else throw .wrongType

/-- What a command gives about which only the kind of its result is known. The only namespace that a
command gives is that of the mission. -/
def result (k : Kind) : Stored Value :=
  match k with
  | .nspace => atom (.nspace "missionNamespace")
  | .tryHelper => throw .violation
  | k => unknown k

end Stored

end ArmaScript
