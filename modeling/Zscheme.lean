import Zscheme.Context.Replies
import Zscheme.Context.Reply
import Zscheme.Context.Delivery
import Zscheme.Ipc.Frame
import Zscheme.Ipc.Truncation
import Zscheme.Daemon.Takeover
import Zscheme.Daemon.Streams
import Zscheme.Daemon.Serial
import Zscheme.Daemon.Progress
import Zscheme.Avatar.Routing
import Zscheme.Avatar.Offer
import Zscheme.Avatar.Walk
import Zscheme.Avatar.Twins
import Zscheme.Avatar.ReplyShape
import Zscheme.Avatar.Pending
import Zscheme.Avatar.Evidence
import Zscheme.Avatar.MakeRoom
import Zscheme.Avatar.TakeFrom
import Zscheme.Avatar.Usage
import Zscheme.Avatar.DropFails
import Zscheme.Avatar.Leave
import Zscheme.Avatar.Spellings
import Zscheme.Image.Phases
import Zscheme.Image.Texts
import Zscheme.Front.Repl
import Zscheme.Front.Script
import Zscheme.Front.Client
import Zscheme.Emacs.Frames
import Zscheme.Emacs.Filter
import Zscheme.Emacs.Delivery
import Zscheme.Avatar.Authority
import Zscheme.Context.Remote
