import CoreStack.Bomberman.Fuse
import CoreStack.Senders
import CoreStack.Hypertext.Requests
import CoreStack.BattleRoyale.Envelope
import CoreStack.BattleRoyale.Fragments
import CoreStack.BattleRoyale.Datagrams
import CoreStack.BattleRoyale.Lengths
import CoreStack.Bomberman.Blast
import CoreStack.Tetrisd.Preview
import CoreStack.Tetrisd.Elimination
import CoreStack.Tetrisd.Spins
import CoreStack.Tetrisd.TargetRoster
import CoreStack.Tetrisd.Ledger
import CoreStack.Tetrisd.Deadlock
import CoreStack.Tetrisd.Contenders
import CoreStack.Tetrisd.Identities
import CoreStack.Tetrisd.GameOver
import CoreStack.Tetrisd.Delivery
import CoreStack.Tetrisd.Feed
import CoreStack.Tetrisd.Winner
import CoreStack.BattleRoyale.Authenticity
import CoreStack.BattleRoyale.Nonce
import CoreStack.BattleRoyale.Disconnects
import CoreStack.Daemons.Startup
import CoreStack.Tetrislog.Logd
import CoreStack.Bomberman.Stock
import CoreStack.Tetrisd.Doors
import CoreStack.Bomberman.Protocol
import CoreStack.Bomberman.Arena
import CoreStack.Bomberman.Tick
import CoreStack.Bomberman.Walls
import CoreStack.Bomberman.MapSync
import CoreStack.Bomberman.Overlap
import CoreStack.Bomberman.Placed
import CoreStack.Bomberman.Powerups
import CoreStack.Bomberman.StateSync
import CoreStack.Bomberman.Bounds
import CoreStack.Tetrisd.Cells
import CoreStack.Tetrisd.Cancel
import CoreStack.Tetrisd.Descent
import CoreStack.Tetrisd.Refused
import CoreStack.Tetris.Corners
import CoreStack.Tetrisd.LockOut
import CoreStack.Tetris.Targets
import CoreStack.Bomberman.Spawns
import CoreStack.Bomberman.Arms
import CoreStack.Utils.QueueMemory
import CoreStack.Tetris.KillFeed
import CoreStack.Tetrislog.WireFormat
import CoreStack.Hypertext.Untrusted
import CoreStack.Bomberman.Survival
import CoreStack.BattleRoyale.Membership
import CoreStack.BattleRoyale.Removal
import CoreStack.Bomberman.ClientSync
import CoreStack.Utils.EventBus
import CoreStack.Tetrisd.Reach
import CoreStack.Tetrisu.Renderer
import CoreStack.Tetrisu.Input
import CoreStack.Tetrisd.Frames
import CoreStack.Tetrisu.Client
import CoreStack.BattleRoyale.Uplink
import CoreStack.Tetrisu.Terminals
import CoreStack.Tetrisd.Agreement
