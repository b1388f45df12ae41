import ArmaScript.Main
import ArmaScript.Scenario.Checking
import ArmaScript.Scenario.Reading
import ArmaScript.Scenario.Running
import ArmaScript.Scenario.Values
import ArmaScript.Proofs.PublicVariables
import ArmaScript.Proofs.Isolation
import ArmaScript.Proofs.Remembering
import ArmaScript.Proofs.OperatorChain
import ArmaScript.Proofs.BareRow
import ArmaScript.Proofs.WhiteSpace
import ArmaScript.Proofs.Bookkeeping
import ArmaScript.Proofs.NestedReading
import ArmaScript.Proofs.Replacing
import ArmaScript.Proofs.Unclosed
import ArmaScript.Proofs.EmptyElements
import ArmaScript.Proofs.NamelessConditionals
import ArmaScript.Proofs.CountedLoops
import ArmaScript.Proofs.Switches
import ArmaScript.Proofs.Variables
import ArmaScript.Proofs.Spelling
import ArmaScript.Proofs.Headers
import ArmaScript.Proofs.CodePoints
import ArmaScript.Proofs.Sending
import ArmaScript.Proofs.Shadowing
