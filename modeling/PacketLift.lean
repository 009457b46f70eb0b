import PacketLift.Block.Walk
import PacketLift.CommandLine.Report
import PacketLift.Elf.Load
import PacketLift.Instruction.Lowering
import PacketLift.Main
import PacketLift.Proofs.Block.Acceptance
import PacketLift.Proofs.Block.Budget
import PacketLift.Proofs.Block.Checked
import PacketLift.Proofs.Block.Constants
import PacketLift.Proofs.Block.Evaluation
import PacketLift.Proofs.Block.Faults
import PacketLift.Proofs.Block.Invocations
import PacketLift.Proofs.Block.Locality
import PacketLift.Proofs.Block.Loops
import PacketLift.Proofs.Block.Reachable
import PacketLift.Proofs.Block.Semantics
import PacketLift.Proofs.Block.Straight
import PacketLift.Proofs.Block.Termination
import PacketLift.Proofs.Block.Tiling
import PacketLift.Proofs.Block.Tracing
import PacketLift.Proofs.Elf.Loading
import PacketLift.Proofs.Instruction.Duplex
import PacketLift.Proofs.Instruction.Reporting
import PacketLift.Proofs.Listing.Edits
import PacketLift.Proofs.Machine.Independence
import PacketLift.Proofs.MicroOp.Emission
import PacketLift.Proofs.Packet.BlockMove
import PacketLift.Proofs.Packet.Commit
import PacketLift.Proofs.Packet.Deadlock
import PacketLift.Proofs.Packet.Levels
import PacketLift.Proofs.Packet.Permutation
import PacketLift.Proofs.Word.Literal
import PacketLift.Settings.Sources
import PacketLift.Toml.Document
