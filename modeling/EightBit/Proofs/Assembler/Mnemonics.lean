import EightBit.Assembler.Mnemonic
import EightBit.Proofs.Text.Uppercase

/-!
# Recognising mnemonics

A token is upper-cased before it is looked up as a mnemonic. That finds exactly the tokens that are
the name of a mnemonic up to ASCII case.
-/

namespace EightBit.Mnemonic

def name : Mnemonic → String
  | .nop => "NOP"
  | .mov => Opcode.mov.mnemonic
  | .not => Opcode.not.mnemonic
  | .cmp => Opcode.cmp.mnemonic
  | .binary opcode => opcode.mnemonic
  | .jump condition => condition.mnemonic

/-- The mnemonics that there are: `binary` is for the opcodes that have no mnemonic of their own
kind. -/
def Proper : Mnemonic → Prop
  | .binary opcode => opcode.isBinary = true
  | _ => True

theorem isName_name (mnemonic : Mnemonic) : Text.IsName mnemonic.name := by
  cases mnemonic with
  | nop => decide
  | mov => decide
  | not => decide
  | cmp => decide
  | binary opcode => cases opcode <;> decide
  | jump condition => cases condition <;> decide

theorem ofOpcode_name (opcode : Opcode) : (ofOpcode opcode).name = opcode.mnemonic := by
  cases opcode <;> rfl

theorem ofOpcode_proper (opcode : Opcode) : (ofOpcode opcode).Proper := by
  cases opcode <;> first | rfl | trivial

theorem ofName?_name {mnemonic : Mnemonic} (hproper : mnemonic.Proper) :
    ofName? mnemonic.name = some mnemonic := by
  cases mnemonic with
  | nop => rfl
  | mov => decide
  | not => decide
  | cmp => decide
  | binary opcode =>
      change opcode.isBinary = true at hproper
      revert hproper
      cases opcode <;> decide
  | jump condition => cases condition <;> decide

theorem alike_of_ofName? {text : String} {mnemonic : Mnemonic}
    (hfound : ofName? text = some mnemonic) :
    mnemonic.Proper ∧ Text.alike mnemonic.name text = true := by
  rw [ofName?] at hfound
  split at hfound
  · rename_i htext
    obtain rfl := Option.some.inj hfound
    rw [htext]
    exact ⟨trivial, Text.alike_iff.mpr rfl⟩
  · split at hfound
    · rename_i condition hcondition
      obtain rfl := Option.some.inj hfound
      have halike := List.find?_some hcondition
      exact ⟨trivial, halike⟩
    · obtain ⟨opcode, hopcode, rfl⟩ := Option.map_eq_some_iff.mp hfound
      have halike := List.find?_some hopcode
      rw [ofOpcode_name]
      exact ⟨ofOpcode_proper opcode, halike⟩

/-- A token is recognised as a mnemonic when it is its name up to ASCII case. -/
theorem ofName?_upper_iff {token : String} {mnemonic : Mnemonic} :
    ofName? (Text.upper token) = some mnemonic ↔
      mnemonic.Proper ∧ Text.alike mnemonic.name token = true := by
  constructor
  · intro hfound
    obtain ⟨hproper, halike⟩ := alike_of_ofName? hfound
    exact ⟨hproper, (Text.alike_upper_iff mnemonic.isName_name).mp halike⟩
  · rintro ⟨hproper, halike⟩
    rw [(Text.upper_eq_iff mnemonic.isName_name).mpr halike]
    exact ofName?_name hproper

/-- The token is the mnemonic once it is in upper case. -/
structure Named (mnemonic : Mnemonic) (token : String) : Prop where
  proper : mnemonic.Proper
  upper : Text.upper token = mnemonic.name

theorem ofName?_eq_some_iff {token : String} {mnemonic : Mnemonic} :
    ofName? (Text.upper token) = some mnemonic ↔ mnemonic.Named token := by
  rw [ofName?_upper_iff, ← Text.upper_eq_iff mnemonic.isName_name]
  exact ⟨fun hboth => ⟨hboth.1, hboth.2⟩, fun hnamed => ⟨hnamed.proper, hnamed.upper⟩⟩

end EightBit.Mnemonic
