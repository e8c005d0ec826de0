import RxBoard.Board
import RxBoard.Proofs.Assembly.Accounting
import RxBoard.Proofs.Assembly.Concatenation
import RxBoard.Proofs.Assembly.Grammar
import RxBoard.Proofs.Assembly.Immediate
import RxBoard.Proofs.Assembly.Surface
import RxBoard.Proofs.Board.Drift
import RxBoard.Proofs.Board.Independence
import RxBoard.Proofs.Board.Leftovers
import RxBoard.Proofs.Board.Listing
import RxBoard.Proofs.Board.Loading
import RxBoard.Proofs.Board.Replay
import RxBoard.Proofs.Checked.Memory
import RxBoard.Proofs.Instruction.Rows
import RxBoard.Proofs.Listing.Assembled
import RxBoard.Proofs.Listing.Columns
import RxBoard.Proofs.Listing.Reassembled
import RxBoard.Proofs.Listing.Tiling
import RxBoard.Proofs.Memory.Flat
import RxBoard.Proofs.Memory.HexDump
import RxBoard.Proofs.Memory.VectorTable
import RxBoard.Proofs.Peripheral.Registers
import RxBoard.Proofs.Peripheral.ServiceOrder
import RxBoard.Proofs.Peripheral.Transmission
import RxBoard.Proofs.Processor.Budget
import RxBoard.Proofs.Processor.Counters
import RxBoard.Proofs.Processor.PackedStatus
import RxBoard.Proofs.Processor.Portions
import RxBoard.Proofs.Processor.Trace
