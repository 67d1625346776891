import LxmfChat.Reticulum.Transport.Handshake
import LxmfChat.App.Stamping
import LxmfChat.App.Routes
import LxmfChat.App.Confirmable
import LxmfChat.App.RequestSize
import LxmfChat.App.Holding
import LxmfChat.App.Timeline
import LxmfChat.App.Bubbles
import LxmfChat.App.SingleLink
import LxmfChat.Reticulum.Transport.Senders
import LxmfChat.App.Directory
import LxmfChat.Lxmf.Reencode
import LxmfChat.Reticulum.Transport.Relaying
import LxmfChat.App.Duplicates
import LxmfChat.Lxmf.Nesting
import LxmfChat.App.HostileInput
import LxmfChat.Reticulum.Transport.Sizes
import LxmfChat.Reticulum.Resource.Collisions
import LxmfChat.App.StoreAndForward
import LxmfChat.Reticulum.Resource.Budget
import LxmfChat.App.History
import LxmfChat.Chat.Envelope
import LxmfChat.Reticulum.Curve.Signatures
import LxmfChat.Reticulum.Transport.Announces
import LxmfChat.Micron.Escaping
import LxmfChat.App.Pass
import LxmfChat.App.Records
import LxmfChat.App.Contacts
import LxmfChat.App.Bookmarks
import LxmfChat.App.Extraction
import LxmfChat.App.Eviction
import LxmfChat.App.Names
import LxmfChat.App.Picking
import LxmfChat.App.Session
import LxmfChat.Base.Ladder
import LxmfChat.Reticulum.Curve.Exchange
