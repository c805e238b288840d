import OortAgent.Adcs
import OortAgent.Affixes
import OortAgent.Agent
import OortAgent.Answered
import OortAgent.Asked
import OortAgent.Blocks
import OortAgent.Cache
import OortAgent.CacheRun
import OortAgent.Calm
import OortAgent.CanServer
import OortAgent.Checksums
import OortAgent.Child
import OortAgent.Cleaner
import OortAgent.Cleanup
import OortAgent.Command
import OortAgent.Config
import OortAgent.CopyRefines
import OortAgent.Crc
import OortAgent.Custody
import OortAgent.Delivery
import OortAgent.Endings
import OortAgent.Expiry
import OortAgent.Files
import OortAgent.Granted
import OortAgent.Health
import OortAgent.Ids
import OortAgent.Json
import OortAgent.Kept
import OortAgent.Latch
import OortAgent.Letters
import OortAgent.Lib.Always
import OortAgent.Lib.FS
import OortAgent.Lib.Look
import OortAgent.Lib.Mailbox
import OortAgent.Lib.Path
import OortAgent.Lib.Pool
import OortAgent.Lib.Posix
import OortAgent.Lib.Proc
import OortAgent.Lib.Rely
import OortAgent.Lib.Run
import OortAgent.Lib.Steps
import OortAgent.Lib.Utf8
import OortAgent.Models
import OortAgent.Move
import OortAgent.MoveRun
import OortAgent.Numerals
import OortAgent.Options
import OortAgent.Ownership
import OortAgent.Pair
import OortAgent.Parents
import OortAgent.Placed
import OortAgent.Post
import OortAgent.Published
import OortAgent.Quarantine
import OortAgent.Query
import OortAgent.Reading
import OortAgent.Readings
import OortAgent.Reclaim
import OortAgent.Remains
import OortAgent.Remembered
import OortAgent.Replies
import OortAgent.Reserve
import OortAgent.Rollback
import OortAgent.Routes
import OortAgent.SendRule
import OortAgent.SendRun
import OortAgent.Served
import OortAgent.Space
import OortAgent.Spoken
import OortAgent.Startup
import OortAgent.Sys
import OortAgent.Text
import OortAgent.Trace
import OortAgent.Transfers
import OortAgent.Undisturbed
import OortAgent.Uuid
