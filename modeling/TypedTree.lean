import TypedTree.Config.Reader
import TypedTree.Interner
import TypedTree.Proofs.Extension
import TypedTree.Proofs.Closed
import TypedTree.Proofs.StubClosure
import TypedTree.Proofs.Signature.Agreement
import TypedTree.Proofs.Jumps
import TypedTree.Proofs.ElementCall
import TypedTree.Proofs.ConstantValue
import TypedTree.Proofs.TemplateText
import TypedTree.Proofs.SafeCall
import TypedTree.Proofs.Iteration
import TypedTree.Proofs.CompoundAssignment
import TypedTree.Proofs.SymbolKeys
import TypedTree.Proofs.Indentation
