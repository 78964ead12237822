import Calculator.Inspection
import Calculator.Main
import Calculator.Proofs.GroupScan
import Calculator.Proofs.OperandPlaces
import Calculator.Proofs.TreeAssembly
import Calculator.Proofs.Conservation
import Calculator.Proofs.SessionRun
import Calculator.Proofs.FloatRank
import Calculator.Proofs.NearestRank
import Calculator.Proofs.DecimalRounding
import Calculator.Proofs.DecimalText
import Calculator.Proofs.PrintedResults
import Calculator.Proofs.NearestValue
import Calculator.Proofs.ResultRange
import Calculator.Proofs.Delivery
import Calculator.Proofs.GroupContext
import Calculator.Proofs.RunFrame
import Calculator.Proofs.RepeatedRounding
import Calculator.Proofs.DisplayedResults
import Calculator.Proofs.WrittenCalls
import Calculator.Proofs.CallOperands
import Calculator.Proofs.FloatOrder
import Calculator.Proofs.RoundingOrder
import Calculator.Proofs.BlankSeparation
import Calculator.Proofs.LetterCase
import Calculator.Proofs.TokenText
import Calculator.Proofs.Synonyms
import Calculator.Proofs.StackActions
import Calculator.Proofs.JsonNumber
import Calculator.Proofs.JsonText
import Calculator.Proofs.RunOutput
import Calculator.Proofs.FileRun
import Calculator.Proofs.BlankTokens
import Calculator.Proofs.StackOrder
import Calculator.Proofs.JsonStrings
import Calculator.Proofs.JsonGrammar
import Calculator.Proofs.AddressLookup
