import ExploreF407.Lib.Machine
import ExploreF407.Lib.Fifo
import ExploreF407.Lib.Census
import ExploreF407.Lib.Ring
import ExploreF407.Lib.Framing
import ExploreF407.Lib.Chunks
import ExploreF407.Lib.Peak
import ExploreF407.Lib.Numeral
import ExploreF407.Lib.Lines
import ExploreF407.Lib.Overlay
import ExploreF407.Lib.Linked
import ExploreF407.Lib.InOrder
import ExploreF407.Lib.Custody
import ExploreF407.Lib.Relink
import ExploreF407.Lib.Shares
import ExploreF407.Lib.Bits
import ExploreF407.Lib.Hook
import ExploreF407.Lib.Urgency
import ExploreF407.Lib.Delta
import ExploreF407.Lib.Inherit
import ExploreF407.Kernel.Objects
import ExploreF407.Kernel.MsgPool
import ExploreF407.Kernel.MsgChains
import ExploreF407.Kernel.QueueCalls
import ExploreF407.Kernel.QueueRuns
import ExploreF407.Kernel.Prio
import ExploreF407.Kernel.RdyList
import ExploreF407.Kernel.PendList
import ExploreF407.Kernel.TickList
import ExploreF407.Kernel.Os
import ExploreF407.Kernel.Services
import ExploreF407.Kernel.Sound
import ExploreF407.Kernel.Owners
import ExploreF407.Kernel.ChangePrio
import ExploreF407.Mbox.Sequential
import ExploreF407.Mbox.Threads
import ExploreF407.Mbox.Credit
import ExploreF407.Mbox.Delivery
import ExploreF407.Mbox.Validity
import ExploreF407.Mbox.Creation
import ExploreF407.Mbox.Waiting
import ExploreF407.Eth.Receive
import ExploreF407.Eth.Positions
import ExploreF407.Eth.Conserved
import ExploreF407.Eth.Stranded
import ExploreF407.Eth.DriverLock
import ExploreF407.Eth.Transmit
import ExploreF407.Eth.Output
import ExploreF407.Eth.Handover
import ExploreF407.Eth.Input
import ExploreF407.Eth.Gathered
import ExploreF407.App.EthTask
import ExploreF407.App.Lifetimes
import ExploreF407.App.Echo
import ExploreF407.App.GivenBack
import ExploreF407.App.DebugRefresh
import ExploreF407.Sys.Printing
import ExploreF407.Sys.Decimals
import ExploreF407.Sys.Bounded
import ExploreF407.Lcd.Panel
import ExploreF407.Lcd.Glyph
import ExploreF407.Lcd.Dots
import ExploreF407.Lcd.Cell
import ExploreF407.Lcd.Written
import ExploreF407.Lcd.Places
import ExploreF407.Lcd.Inside
import ExploreF407.Lcd.Calls
import ExploreF407.Lcd.Apart
import ExploreF407.Lcd.Cursor
import ExploreF407.Lcd.Border
import ExploreF407.Lcd.TableFrame
import ExploreF407.Lcd.TableCells
import ExploreF407.Kernel.Blocking
import ExploreF407.Kernel.SemCalls
