import SniLua.Lib.Run
import SniLua.Lib.RoundRobin
import SniLua.Lib.HashMap
import SniLua.Lib.F64
import SniLua.Lib.TextGrid
import SniLua.Lib.Letterbox
import SniLua.Client.MemRegion
import SniLua.Cache.Watch
import SniLua.Cache.Snapshot
import SniLua.Cache.Coalesce
import SniLua.Cache.ReadOf
import SniLua.Cache.Select
import SniLua.Cache.Engine
import SniLua.Cache.Arrival
import SniLua.Cache.Requests
import SniLua.Cache.SnapshotCorrect
import SniLua.Cache.Freshness
import SniLua.Cache.Starvation
import SniLua.Cache.Isolation
import SniLua.LuaApi.Json
import SniLua.LuaApi.Store
import SniLua.LuaApi.Controls
import SniLua.LuaApi.Panel
import SniLua.LuaApi.ControlDomains
import SniLua.App.ScriptLoad
import SniLua.App.SniActor
import SniLua.App.Canvas
import SniLua.App.Mapping
import SniLua.App.ForcedCanvas
import SniLua.Render.Color
import SniLua.Render.Font
import SniLua.Render.Viewport
import SniLua.Render.Text
import SniLua.App.ColorEdit
import SniLua.App.Overlay
import SniLua.LuaApi.Http
import SniLua.LuaApi.HttpProtocol
import SniLua.Cache.Canonical
import SniLua.Cache.Checked
import SniLua.Cache.Split
import SniLua.Cache.Selection
import SniLua.Lib.Aimd
import SniLua.Cache.Drain
import SniLua.Cache.Budget
import SniLua.LuaApi.SnesWatch
import SniLua.Cache.Backlog
import SniLua.Cache.Collect
import SniLua.Lib.Acyclic
import SniLua.Lib.DepthFirst
import SniLua.LuaApi.LuaValue
import SniLua.LuaApi.LuaToJson
import SniLua.LuaApi.Encoding
import SniLua.LuaApi.JsonToLua
import SniLua.Render.DrawList
import SniLua.LuaApi.Gfx
import SniLua.LuaApi.Lifecycle
import SniLua.LuaApi.ScriptHost
import SniLua.Lib.Ewma
import SniLua.Lib.LittleEndian
import SniLua.Cache.PollLoop
import SniLua.Cache.PollRefine
import SniLua.Cache.FrameTime
import SniLua.Cache.PollStats
import SniLua.Cache.Accessors
import SniLua.Cache.Demand
import SniLua.LuaApi.SnesMemory
import SniLua.Render.Outline
import SniLua.Render.Paint
import SniLua.LuaApi.Origin
import SniLua.LuaApi.Gradient
import SniLua.App.Session
import SniLua.App.Provenance
import SniLua.App.RoundTrip
import SniLua.App.CaptureFeed
import SniLua.LuaApi.ButtonLatch
import SniLua.LuaApi.FrameInput
