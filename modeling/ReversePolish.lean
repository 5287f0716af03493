import ReversePolish.Calculator
import ReversePolish.Operator.Host
import ReversePolish.Proofs.Evaluation.Containment
import ReversePolish.Proofs.Evaluation.Nesting
import ReversePolish.Proofs.Evaluation.Prefix
import ReversePolish.Proofs.Lexing.Plain
import ReversePolish.Proofs.Variable.Aliasing
import ReversePolish.Proofs.Variable.Pruning
import ReversePolish.Proofs.Operator.Discipline
import ReversePolish.Proofs.Variable.Grounded
import ReversePolish.Proofs.Variable.Assignment
import ReversePolish.Proofs.Evaluation.Strict
import ReversePolish.Proofs.Evaluation.Brackets
import ReversePolish.Proofs.Variable.Footprint
import ReversePolish.Proofs.Evaluation.Literals
import ReversePolish.Proofs.Lexing.Strings
import ReversePolish.Proofs.Evaluation.Positions
import ReversePolish.Proofs.Evaluation.Registration
import ReversePolish.Proofs.Value.Rules
import ReversePolish.Proofs.Value.Words
import ReversePolish.Proofs.Value.Comparison
import ReversePolish.Proofs.Operator.Selection
import ReversePolish.Proofs.Operator.FloatOperands
import ReversePolish.Proofs.Operator.Clamping
import ReversePolish.Proofs.Evaluation.Overflow
import ReversePolish.Proofs.Operator.Finiteness
import ReversePolish.Proofs.Machine.Rotation
