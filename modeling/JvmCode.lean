import JvmCode.BigEndian
import JvmCode.Buffer
import JvmCode.Descriptor
import JvmCode.ModifiedUtf8
import JvmCode.Opcode.Format
import JvmCode.Opcode.Lookup
import JvmCode.Reader
import JvmCode.Pool.Format
import JvmCode.Pool.Resolver
import JvmCode.Instruction.Push
import JvmCode.Instruction.Reading
import JvmCode.Instruction.Template
import JvmCode.Attribute.Format
import JvmCode.Traversal.Walk
import JvmCode.Assembler.Finish
import JvmCode.Proofs.Instruction.Fits
import JvmCode.Proofs.Outcomes
import JvmCode.Proofs.TextForms
import JvmCode.Proofs.Descriptors
import JvmCode.Proofs.Stands
import JvmCode.Proofs.Assembler.Finishing
import JvmCode.Proofs.Assembler.Recording
import JvmCode.Proofs.Assembler.Refusing
import JvmCode.Proofs.Assembler.Accepting
import JvmCode.Proofs.Assembler.TableRows
import JvmCode.Proofs.Assembler.TwoPass
import JvmCode.Proofs.Instruction.Relabel
import JvmCode.Proofs.RoundTrip.Alignment
import JvmCode.Proofs.RoundTrip.Building
import JvmCode.Proofs.RoundTrip.Rebuilding
import JvmCode.Proofs.Pool.Representation
import JvmCode.Proofs.Pool.ByteForm
import JvmCode.Proofs.Pool.TextEntries
import JvmCode.Proofs.Instruction.Consuming
import JvmCode.Proofs.Traversal.Closure
import JvmCode.Proofs.Traversal.Agreement
import JvmCode.Proofs.Attribute.Writing
import JvmCode.Proofs.Attribute.ReadBack
import JvmCode.Proofs.Attribute.RowCounts
import JvmCode.Proofs.RoundTrip.Tables
import JvmCode.Proofs.Instruction.Remade
import JvmCode.Proofs.Instruction.Calls
import JvmCode.Proofs.Instruction.Switches
import JvmCode.Proofs.Traversal.Given
import JvmCode.Proofs.Traversal.Breaking
import JvmCode.Proofs.Traversal.Filtering
import JvmCode.Proofs.Traversal.Ending
import JvmCode.Proofs.RoundTrip.Dropping
import JvmCode.Proofs.Pool.Additions
import JvmCode.Proofs.Pool.Uses
import JvmCode.Proofs.Instruction.Pushing
import JvmCode.Proofs.Pool.DeclaredCount
import JvmCode.Proofs.Attribute.Merging
import JvmCode.Proofs.Assembler.Sizes
